import Fastblock.Core.Lts
import Fastblock.L2Store.KvBatch
import Fastblock.L2Store.KvCheckpoint

/-!
# The worker of the kv store

`kvstore` (src/localstore/kv_store.h) collects operations in `op_log`. Its
poller commits them to the ring, or saves a checkpoint first if they are
longer than what is left of the ring; the flag `working` keeps a second
commit or checkpoint from starting. The completion of a commit applies its
operations to the table and clears the flag, or puts the operations back
and leaves the flag as it is.

Operations are neither lost nor applied twice in any run. The worker goes
on as long as no commit fails: its requests succeed, and it fits into the
ring. That the operations are not longer than what is left does not say
so, since the batch has 16 bytes more; the rounding up to 4 KiB does no
harm, because what is left is always a multiple of that
(`worker_never_wedges`).
-/
namespace Fastblock.L2.Kv

open Fastblock.Core Fastblock.L1

/-- What the flag `working` is set for. -/
inductive Work where
  | commit (ops : List Op) (opLength : Nat) (bl : Buf)
  | checkpoint

structure KvStore where
  table : Table := ∅
  opLog : List Op := []
  opLength : Nat := 0
  rblob : RollingBlob
  checkpoint : KvCheckpoint
  working : Bool := false
  inflight : Option Work := none

namespace KvStore

variable (k : KvStore)

/-! ## Calls -/

/-- mirrors kv_store.h:136-139 -/
def put (key : Str) (value : Option Str) : KvStore :=
  { k with
    opLength := k.opLength + (lengthString key + lengthOptString value)
    opLog := k.opLog ++ [⟨key, value⟩] }

/-- mirrors kv_store.h:142-145 -/
def remove (key : Str) : KvStore :=
  { k with
    opLength := k.opLength + (lengthString key + lengthOptString none)
    opLog := k.opLog ++ [⟨key, none⟩] }

def needCommit : Bool := k.opLog.length > 0

def needCheckpoint : Bool := k.opLength > k.rblob.available

/-- mirrors kv_store.h:203-230: after an error the flag stays. -/
def commitDone (ops : List Op) (opLength : Nat) (rberrno : Int) : KvStore :=
  if rberrno ≠ 0 then { k with opLog := ops ++ k.opLog, opLength := k.opLength + opLength, inflight := none }
  else { k with table := ops.foldl applyOp k.table, working := false, inflight := none }

/-- mirrors kv_store.h:175-201; an append without room invokes `commit_done`
at once. -/
def commit (stale : Nat → UInt8) : KvStore :=
  if k.working then k
  else if !k.needCommit then k
  else
    let bl := batchBuf stale k.opLog
    let k' := { k with working := true, opLog := [], opLength := 0 }
    if bl.bytes > k.rblob.available then k'.commitDone k.opLog k.opLength (-ENOSPC)
    else { k' with inflight := some (.commit k.opLog k.opLength bl) }

/-- mirrors kv_store.h:292-318 -/
def maybeWork (stale : Nat → UInt8) : KvStore :=
  if k.working then k
  else if k.needCheckpoint then { k with working := true, inflight := some .checkpoint }
  else if k.needCommit then k.commit stale
  else k

/-- The ring after the requests of a commit; one that failed leaves the
bytes `dev`. -/
def appended (rb : RollingBlob) (bl : Buf) (dev : Nat → UInt8) (rberrno : Int) : RollingBlob :=
  if rberrno ≠ 0 then rb.appendFailed bl dev else (rb.append bl).1

/-- A commit whose completion was invoked with these error numbers. -/
def commitEnds (ops : List Op) (opLength : Nat) (bl : Buf) (dev : Nat → UInt8) : List Int → KvStore
  | [] => k
  | rberrno :: _ => { k with rblob := appended k.rblob bl dev rberrno }.commitDone ops opLength rberrno

/-- The requests of a commit are done. -/
def appendDone (res : Nat → Int) (dev : Nat → UInt8) : KvStore :=
  match k.inflight with
  | some (.commit ops opLength bl) => k.commitEnds ops opLength bl dev (k.rblob.completions res (.append bl))
  | _ => k

/-- mirrors kv_store.h:390-399 -/
def checkpointTrimComplete : KvStore := { k with working := false, inflight := none }

/-- A checkpoint whose last callback was invoked with these error numbers: a
commit follows, kv_store.h:303-306. -/
def checkpointEnds (stale : Nat → UInt8) : List Int → KvStore
  | [] => k
  | _ :: _ => k.checkpointTrimComplete.commit stale

/-- The calls of a checkpoint are done. The table and the ring are used by
nothing else while the flag is set. -/
def checkpointDone (r : Results) (pairs : List Pair) (stale blank stale' : Nat → UInt8) : KvStore :=
  match k.inflight with
  | some .checkpoint =>
    match k.checkpoint.saveCheckpoint r k.rblob pairs stale blank with
    | .crashed _ _ => k
    | .trimmed c rb =>
      { k with checkpoint := c, rblob := rb }.checkpointEnds stale'
        (k.rblob.completions r.trim (.trimBack k.rblob.used))
  | _ => k

/-! ## Runs -/

inductive Event where
  | put (key : Str) (value : Option Str)
  | remove (key : Str)
  | poll (stale : Nat → UInt8)
  | appendDone (res : Nat → Int) (dev : Nat → UInt8)
  | checkpointDone (r : Results) (pairs : List Pair) (stale blank stale' : Nat → UInt8)

def event : Event → KvStore
  | .put key value => k.put key value
  | .remove key => k.remove key
  | .poll stale => k.maybeWork stale
  | .appendDone res dev => k.appendDone res dev
  | .checkpointDone r pairs stale blank stale' => k.checkpointDone r pairs stale blank stale'

/-- A checkpoint has the pairs of the table in some order, and the blob
store gives new ids. -/
def Allowed : Event → Prop
  | .appendDone _ dev => ∀ ops n bl, k.inflight = some (.commit ops n bl) → k.rblob.MayLeave bl dev
  | .checkpointDone r pairs _ _ _ => k.table.entries = ↑pairs ∧ k.checkpoint.Fresh r
  | _ => True

/-- The operations that an event queues. -/
def queues : Event → List Op
  | .put key value => [⟨key, value⟩]
  | .remove key => [⟨key, none⟩]
  | _ => []

/-- The operations that the completion of a commit applies to the table. -/
def appliesDone (res : Nat → Int) : List Op :=
  match k.inflight with
  | some (.commit ops _ bl) => if (k.rblob.completions res (.append bl)).head? = some 0 then ops else []
  | _ => []

def applies : Event → List Op
  | .appendDone res _ => k.appliesDone res
  | _ => []

end KvStore

/-- A store, the table it began with, and the operations that were queued
and applied since. -/
structure Journal where
  kvs : KvStore
  base : Table
  queued : List Op
  applied : List Op

def Journal.event (j : Journal) (e : KvStore.Event) : Journal :=
  ⟨j.kvs.event e, j.base, j.queued ++ KvStore.queues e, j.applied ++ j.kvs.applies e⟩

/-- The ring holds the window `w` in blocks of 4 KiB. -/
structure Blocks (rb : RollingBlob) (w : Window UInt8) : Prop where
  refines : rb.Refines w
  size : 4096 ∣ rb.size
  back : 4096 ∣ w.back
  front : 4096 ∣ w.front

/-- A store that does nothing yet, over any ring, and its runs. -/
def worker : Lts Journal KvStore.Event where
  init j := j.base = j.kvs.table ∧ j.queued = [] ∧ j.applied = [] ∧ j.kvs.opLog = [] ∧ j.kvs.opLength = 0 ∧
    j.kvs.working = false ∧ j.kvs.inflight = none ∧ ∃ w, Blocks j.kvs.rblob w
  step j e j' := j.kvs.Allowed e ∧ j' = j.event e

/-- The operations of a commit that is not done. -/
def KvStore.pending (k : KvStore) : List Op :=
  match k.inflight with
  | some (.commit ops _ _) => ops
  | _ => []

/-- The completion of a commit is invoked, or nothing happens. -/
theorem KvStore.appendDone_cases (k : KvStore) (res : Nat → Int) (dev : Nat → UInt8) :
    k.appendDone res dev = k ∧ k.appliesDone res = [] ∨
      ∃ ops n bl rberrno, k.inflight = some (.commit ops n bl) ∧
        k.appendDone res dev = { k with rblob := appended k.rblob bl dev rberrno }.commitDone ops n rberrno ∧
        k.appliesDone res = if rberrno = 0 then ops else [] := by
  unfold appendDone appliesDone
  split
  · next ops n bl hi =>
    cases k.rblob.completions res (.append bl) with
    | nil => exact .inl ⟨rfl, rfl⟩
    | cons rberrno rest => exact .inr ⟨ops, n, bl, rberrno, hi, rfl, by simp⟩
  · exact .inl ⟨rfl, rfl⟩

/-! ## Operations are kept -/

/-- Every operation that was queued is applied, or in the commit, or
waits, in its order. -/
structure Journal.Kept (j : Journal) : Prop where
  queued : j.queued = j.applied ++ j.kvs.pending ++ j.kvs.opLog
  table : j.kvs.table = j.applied.foldl applyOp j.base
  length : j.kvs.opLength = opsLength j.kvs.opLog
  commit : ∀ ops n bl, j.kvs.inflight = some (.commit ops n bl) → n = opsLength ops
  busy : j.kvs.inflight ≠ none → j.kvs.working = true

namespace Journal

variable {k : KvStore} {base : Table} {queued applied : List Op}

/-- A commit ends: its operations are applied, or wait in front of the
others. -/
theorem Kept.commitDone {ops : List Op} {n : Nat} (hq : queued = applied ++ ops ++ k.opLog)
    (ht : k.table = applied.foldl applyOp base) (hl : k.opLength = opsLength k.opLog) (hn : n = opsLength ops)
    (rberrno : Int) :
    Kept ⟨k.commitDone ops n rberrno, base, queued, applied ++ if rberrno = 0 then ops else []⟩ := by
  unfold KvStore.commitDone
  by_cases he : rberrno = 0
  · rw [if_neg (not_not.mpr he), if_pos he]
    refine ⟨?_, ?_, hl, nofun, fun h => absurd rfl h⟩
    · simp [KvStore.pending, hq]
    · rw [List.foldl_append, ← ht]
  · rw [if_pos he, if_neg he]
    refine ⟨?_, ?_, ?_, nofun, fun h => absurd rfl h⟩
    · simp [KvStore.pending, hq]
    · rw [List.append_nil]
      exact ht
    · dsimp only
      rw [opsLength_append, hl, hn, Nat.add_comm]

/-- Nothing is in flight while the flag is not set. -/
theorem Kept.inflight_eq (h : Kept ⟨k, base, queued, applied⟩) (hw : k.working = false) : k.inflight = none := by
  by_contra hne
  have hbusy : k.working = true := h.busy hne
  rw [hw] at hbusy
  cases hbusy

theorem Kept.queued_eq (h : Kept ⟨k, base, queued, applied⟩) (hw : k.working = false) :
    queued = applied ++ k.opLog := by
  have hq := h.queued
  rwa [KvStore.pending, h.inflight_eq hw, List.append_nil] at hq

/-- Taking the operations for a commit. -/
theorem Kept.take (h : Kept ⟨k, base, queued, applied⟩) (stale : Nat → UInt8) :
    Kept ⟨k.commit stale, base, queued, applied⟩ := by
  unfold KvStore.commit
  split
  · exact h
  · next hw =>
    have hq := h.queued_eq (Bool.eq_false_iff.mpr hw)
    split
    · exact h
    · dsimp only
      split
      · have hempty : queued = applied ++ k.opLog ++ [] := by rw [hq, List.append_nil]
        have hdone := Kept.commitDone (k := { k with working := true, opLog := [], opLength := 0 }) hempty h.table rfl
          h.length (-ENOSPC)
        rwa [if_neg (by decide), List.append_nil] at hdone
      · refine ⟨by simp [KvStore.pending, hq], h.table, rfl, ?_, fun _ => rfl⟩
        rintro ops n bl ⟨rfl, rfl, rfl⟩
        exact h.length

/-- The end of a checkpoint, with or without its last callback. -/
theorem Kept.checkpointDone (h : Kept ⟨k, base, queued, applied⟩) (r : Results) (pairs : List Pair)
    (stale blank stale' : Nat → UInt8) :
    Kept ⟨k.checkpointDone r pairs stale blank stale', base, queued, applied⟩ := by
  unfold KvStore.checkpointDone
  split
  · next hi =>
    have hq := h.queued
    rw [KvStore.pending, hi] at hq
    split
    · exact h
    · next c rb _ =>
      have hkept : Kept ⟨{ k with checkpoint := c, rblob := rb }, base, queued, applied⟩ :=
        ⟨h.queued, h.table, h.length, h.commit, h.busy⟩
      have hidle : Kept ⟨{ k with checkpoint := c, rblob := rb }.checkpointTrimComplete, base, queued, applied⟩ :=
        ⟨hq, h.table, h.length, nofun, fun hne => absurd rfl hne⟩
      cases k.rblob.completions r.trim (.trimBack k.rblob.used) with
      | nil => exact hkept
      | cons rberrno rest => exact hidle.take stale'
  · exact h

/-- The completion of a commit, or a commit that waits for it in vain. -/
theorem Kept.appendDone (h : Kept ⟨k, base, queued, applied⟩) (res : Nat → Int) (dev : Nat → UInt8) :
    Kept ⟨k.appendDone res dev, base, queued, applied ++ k.appliesDone res⟩ := by
  rcases KvStore.appendDone_cases k res dev with ⟨hdone, happlies⟩ | ⟨ops, n, bl, rberrno, hi, hdone, happlies⟩
  · rw [hdone, happlies, List.append_nil]
    exact h
  · have hpending : k.pending = ops := by rw [KvStore.pending, hi]
    have hq : queued = applied ++ ops ++ k.opLog := hpending ▸ h.queued
    rw [hdone, happlies]
    exact Kept.commitDone (k := { k with rblob := KvStore.appended k.rblob bl dev rberrno }) hq h.table h.length
      (h.commit ops n bl hi) rberrno

/-- One event. -/
theorem Kept.event {j : Journal} (h : j.Kept) (e : KvStore.Event) : (j.event e).Kept := by
  cases e with
  | put key value =>
    refine ⟨?_, ?_, ?_, h.commit, h.busy⟩
    · simp [Journal.event, KvStore.event, KvStore.put, KvStore.queues, KvStore.applies, KvStore.pending, h.queued]
    · simp [Journal.event, KvStore.event, KvStore.put, KvStore.applies, h.table]
    · simp [Journal.event, KvStore.event, KvStore.put, h.length, Op.length, opsLength]
  | remove key =>
    refine ⟨?_, ?_, ?_, h.commit, h.busy⟩
    · simp [Journal.event, KvStore.event, KvStore.remove, KvStore.queues, KvStore.applies, KvStore.pending, h.queued]
    · simp [Journal.event, KvStore.event, KvStore.remove, KvStore.applies, h.table]
    · simp [Journal.event, KvStore.event, KvStore.remove, h.length, Op.length, opsLength]
  | poll stale =>
    show Kept ⟨j.kvs.maybeWork stale, j.base, j.queued ++ [], j.applied ++ []⟩
    rw [List.append_nil, List.append_nil, KvStore.maybeWork]
    split
    · exact h
    · next hw =>
      have hq := Kept.queued_eq h (Bool.eq_false_iff.mpr hw)
      split
      · exact ⟨by simpa [KvStore.pending] using hq, h.table, h.length, fun _ _ _ hin => (by cases hin), fun _ => rfl⟩
      · split
        · exact Kept.take h stale
        · exact h
  | appendDone res dev =>
    show Kept ⟨j.kvs.appendDone res dev, j.base, j.queued ++ [], _⟩
    rw [List.append_nil]
    exact Kept.appendDone h res dev
  | checkpointDone r pairs stale blank stale' =>
    show Kept ⟨j.kvs.checkpointDone r pairs stale blank stale', j.base, j.queued ++ [], j.applied ++ []⟩
    rw [List.append_nil, List.append_nil]
    exact Kept.checkpointDone h r pairs stale blank stale'

end Journal

/-- In every run, whatever the device answers, no operation is lost or
applied twice. -/
theorem operations_kept {j : Journal} (hr : worker.Reachable j) : j.Kept := by
  have hi : worker.Inductive Journal.Kept := by
    refine ⟨fun j h0 => ?_, ?_⟩
    · obtain ⟨hb, hq, ha, hlog, hlen, -, hin, -⟩ := h0
      refine ⟨?_, ?_, ?_, ?_, fun hne => absurd hin hne⟩
      · rw [hq, ha, KvStore.pending, hin, hlog]
        rfl
      · rw [ha, hb]
        rfl
      · rw [hlen, hlog]
        rfl
      · rw [hin]
        nofun
    · rintro j e _ hk ⟨-, rfl⟩
      exact hk.event e
  exact hi.reachable hr

/-! ## The flag is cleared -/

/-- Operations of the length `len` and the header of their batch fit into
`room`; a batch is never longer than its buffer. -/
def HeaderFits (len room : Nat) : Prop := len + 16 ≤ room ∨ bufSize ≤ room

/-- The operations that are committed fit into the ring with the header of
the batch. The requests of a commit succeed, and of a trim that is split
at the end of the ring the first does. -/
def Served (j : Journal) : KvStore.Event → Prop
  | .poll _ => j.kvs.working = false → j.kvs.opLog ≠ [] → j.kvs.opLength ≤ j.kvs.rblob.available →
      HeaderFits j.kvs.opLength j.kvs.rblob.available
  | .appendDone res _ => ∀ ops n bl, j.kvs.inflight = some (.commit ops n bl) →
      res 0 = 0 ∧ (j.kvs.rblob.IsSplit (.append bl) → res 1 = 0)
  | .checkpointDone r _ _ _ _ => j.kvs.inflight = some .checkpoint →
      (j.kvs.rblob.IsSplit (.trimBack j.kvs.rblob.used) → r.trim 0 = 0) ∧ HeaderFits j.kvs.opLength j.kvs.rblob.size
  | _ => True

theorem batchBuf_le {ops : List Op} {room : Nat} (hroom : 4096 ∣ room) (h : HeaderFits (opsLength ops) room)
    (stale : Nat → UInt8) : (batchBuf stale ops).bytes ≤ room := by
  have hlen := length_serializeOp ops
  have hbuf := length_serializeOp_le ops
  rw [HeaderFits] at h
  exact (alignCeil_le_iff hroom).mpr (by omega)

/-- Where blocks are kept, operations that are not too long for themselves
have room as a batch exactly if they have with the header. -/
theorem batchBuf_le_iff {ops : List Op} {room : Nat} (hroom : 4096 ∣ room) (hle : opsLength ops ≤ room)
    (stale : Nat → UInt8) : (batchBuf stale ops).bytes ≤ room ↔ HeaderFits (opsLength ops) room := by
  refine ⟨fun h => ?_, fun h => batchBuf_le hroom h stale⟩
  have hlen := (alignCeil_le_iff hroom).mp h
  rw [HeaderFits]
  by_cases hfit : 16 + opsLength ops ≤ bufSize
  · rw [serializeOp_of_le hfit] at hlen
    simp only [List.length_append, length_leBytes, length_flatMap_opBytes] at hlen
    omega
  · have : 4096 ∣ bufSize := by decide
    omega

namespace Blocks

variable {rb : RollingBlob} {w : Window UInt8}

theorem dvd_available (h : Blocks rb w) : 4096 ∣ rb.available := by
  rw [RollingBlob.available, h.refines.used_eq, Window.used]
  exact Nat.dvd_sub h.size (Nat.dvd_sub h.front h.back)

/-- A batch is appended. -/
theorem append (h : Blocks rb w) {bl : Buf} (hu : 4096 ∣ bl.bytes) (hb : bl.bytes ≤ rb.available) :
    Blocks (rb.append bl).1 (w.append bl.bytes bl.get) := by
  have hfits := h.refines.keeps.le_available.mp hb
  have hsize : (rb.append bl).1.size = rb.size := by rw [(h.refines.append_accepted hfits).1]; rfl
  have hdvd : 4096 ∣ (rb.append bl).1.size := by
    rw [hsize]
    exact h.size
  exact ⟨h.refines.append (Nat.dvd_trans (by decide) hu) hfits, hdvd, h.back, Nat.dvd_add h.front hu⟩

theorem used_eq (h : Blocks rb w) : w.back + rb.used = w.front := by
  rw [h.refines.used_eq, Window.used]
  exact Nat.add_sub_cancel' h.refines.holds.le

theorem dvd_used (h : Blocks rb w) : 4096 ∣ rb.used := by
  rw [h.refines.used_eq]
  exact Nat.dvd_sub h.front h.back

/-- The ring is trimmed as a whole. -/
theorem trimBack (h : Blocks rb w) : Blocks (rb.trimBack rb.used).1 (w.trimBack rb.used) ∧
    (rb.trimBack rb.used).1.size = rb.size := by
  have hr := h.refines.trimBack (Nat.dvd_trans (by decide) h.dvd_used) (Nat.le_of_eq h.used_eq)
  have hsize : (rb.trimBack rb.used).1.size = rb.size := by
    rw [RollingBlob.trimBack, if_neg (Nat.lt_irrefl _)]
    rfl
  have hdvd : 4096 ∣ (rb.trimBack rb.used).1.size := by
    rw [hsize]
    exact h.size
  exact ⟨⟨hr, hdvd, Nat.dvd_add h.back h.dvd_used, h.front⟩, hsize⟩

/-- It is empty afterwards, whatever the device answers. -/
theorem trimAll (h : Blocks rb w) (res : Nat → Int) : ∃ w', Blocks (KvCheckpoint.trimAll rb res) w' ∧
    (KvCheckpoint.trimAll rb res).available = rb.size := by
  suffices ∃ w', Blocks (KvCheckpoint.trimAll rb res) w' ∧ w'.back = w'.front ∧
      (KvCheckpoint.trimAll rb res).size = rb.size by
    obtain ⟨w', hw', hempty, hsize⟩ := this
    refine ⟨w', hw', ?_⟩
    rw [RollingBlob.available, hw'.refines.used_eq, Window.used, hempty, Nat.sub_self, hsize, Nat.sub_zero]
  rw [KvCheckpoint.trimAll]
  split
  · exact ⟨_, h.trimBack.1, h.used_eq, h.trimBack.2⟩
  · have hback : rb.back.pos + rb.used = w.front := by
      rw [h.refines.back]
      exact h.used_eq
    refine ⟨{ w with back := w.front }, ⟨?_, h.size, h.front, h.front⟩, rfl, rfl⟩
    rw [hback]
    exact { h.refines with
      back := rfl
      backUnit := h.refines.frontUnit
      holds := ⟨Nat.le_refl _, Nat.le_add_right _ _, fun p h₁ h₂ => absurd h₂ (Nat.not_lt.mpr h₁)⟩ }

end Blocks

/-- The flag is set for something, and a commit has room in a ring of
blocks. -/
structure KvStore.Clear (k : KvStore) : Prop where
  blocks : ∃ w, Blocks k.rblob w
  flag : k.working = true → k.inflight ≠ none
  room : ∀ ops n bl, k.inflight = some (.commit ops n bl) → bl.bytes ≤ k.rblob.available ∧ 4096 ∣ bl.bytes

namespace KvStore

variable {k : KvStore}

/-- A commit of a batch that fits is in flight. -/
theorem Clear.commit (h : k.Clear) (stale : Nat → UInt8)
    (hfit : k.opLog ≠ [] → (batchBuf stale k.opLog).bytes ≤ k.rblob.available) : (k.commit stale).Clear := by
  unfold KvStore.commit
  split
  · exact h
  · split
    · exact h
    · next hneed =>
      have hne : k.opLog ≠ [] := by
        intro hnil
        simp [needCommit, hnil] at hneed
      dsimp only
      rw [if_neg (Nat.not_lt.mpr (hfit hne))]
      refine ⟨h.blocks, nofun, ?_⟩
      rintro ops n bl ⟨rfl, rfl, rfl⟩
      exact ⟨hfit hne, dvd_alignCeil _⟩

theorem Clear.commitDone (h : ∃ w, Blocks k.rblob w) (ops : List Op) (n : Nat) : (k.commitDone ops n 0).Clear :=
  ⟨h, nofun, nofun⟩

theorem appended_zero (rb : RollingBlob) (bl : Buf) (dev : Nat → UInt8) : appended rb bl dev 0 = (rb.append bl).1 :=
  if_neg (not_not.mpr rfl)

/-- A commit whose requests succeed. -/
theorem Clear.appendDone (h : k.Clear) {res : Nat → Int} {dev : Nat → UInt8}
    (hres : ∀ ops n bl, k.inflight = some (.commit ops n bl) →
      res 0 = 0 ∧ (k.rblob.IsSplit (.append bl) → res 1 = 0)) : (k.appendDone res dev).Clear := by
  unfold KvStore.appendDone
  split
  · next ops n bl hi =>
    obtain ⟨w, hw⟩ := h.blocks
    obtain ⟨hb, hu⟩ := h.room ops n bl hi
    obtain ⟨h0, h1⟩ := hres ops n bl hi
    rw [RollingBlob.completions_of_ok (.inr h0), RollingBlob.errorDue_append hb h0 h1, commitEnds]
    have hblocks : Blocks (appended k.rblob bl dev 0) (w.append bl.bytes bl.get) := by
      rw [appended_zero]
      exact hw.append hu hb
    exact Clear.commitDone ⟨_, hblocks⟩ ops n
  · exact h

/-- A checkpoint that ends, with a batch that fits after it. -/
theorem Clear.checkpointDone (h : k.Clear) (hl : k.opLength = opsLength k.opLog) {r : Results} (pairs : List Pair)
    (stale blank stale' : Nat → UInt8)
    (hr : k.inflight = some .checkpoint →
      (k.rblob.IsSplit (.trimBack k.rblob.used) → r.trim 0 = 0) ∧ HeaderFits k.opLength k.rblob.size) :
    (k.checkpointDone r pairs stale blank stale').Clear := by
  unfold KvStore.checkpointDone
  split
  · next hi =>
    obtain ⟨htrim, hfits⟩ := hr hi
    obtain ⟨w, hw⟩ := h.blocks
    rcases KvCheckpoint.saveCheckpoint_cases k.checkpoint r k.rblob pairs stale blank with ⟨c, hs⟩ | ⟨c, hs⟩
    · rw [hs]
      exact h
    · have hok : ¬k.rblob.IsSplit (.trimBack k.rblob.used) ∨ r.trim 0 = 0 := by
        by_cases hsplit : k.rblob.IsSplit (.trimBack k.rblob.used)
        · exact .inr (htrim hsplit)
        · exact .inl hsplit
      obtain ⟨w', hw', havail⟩ := hw.trimAll r.trim
      rw [hs, RollingBlob.completions_of_ok hok]
      have hclear : ({ k with checkpoint := c, rblob := KvCheckpoint.trimAll k.rblob r.trim } :
          KvStore).checkpointTrimComplete.Clear := ⟨⟨w', hw'⟩, nofun, nofun⟩
      refine hclear.commit stale' fun _ => ?_
      show (batchBuf stale' k.opLog).bytes ≤ (KvCheckpoint.trimAll k.rblob r.trim).available
      rw [havail]
      exact batchBuf_le hw.size (hl ▸ hfits) stale'
  · exact h

/-- One event that is served. -/
theorem Clear.event {j : Journal} (hk : j.Kept) (h : j.kvs.Clear) {e : Event} (hs : Served j e) :
    (j.event e).kvs.Clear := by
  cases e with
  | put key value => exact ⟨h.blocks, h.flag, h.room⟩
  | remove key => exact ⟨h.blocks, h.flag, h.room⟩
  | poll stale =>
    show (j.kvs.maybeWork stale).Clear
    unfold maybeWork
    split
    · exact h
    · next hw =>
      split
      · exact ⟨h.blocks, nofun, nofun⟩
      · next hneed =>
        obtain ⟨w, hblocks⟩ := h.blocks
        have hle : j.kvs.opLength ≤ j.kvs.rblob.available := by simpa [needCheckpoint] using hneed
        split
        · refine h.commit stale fun hne => ?_
          exact batchBuf_le hblocks.dvd_available (hk.length ▸ hs (Bool.eq_false_iff.mpr hw) hne hle) stale
        · exact h
  | appendDone res dev => exact h.appendDone hs
  | checkpointDone r pairs stale blank stale' => exact h.checkpointDone hk.length pairs stale blank stale' hs

end KvStore

theorem clear_of_reachable {j : Journal} (hr : (worker.restrict Served).Reachable j) : j.Kept ∧ j.kvs.Clear := by
  have hi : (worker.restrict Served).Inductive fun j => worker.Reachable j ∧ j.kvs.Clear := by
    refine ⟨fun j h0 => ⟨.of_init h0, ?_⟩, ?_⟩
    · obtain ⟨-, -, -, -, -, hw, hin, hblocks⟩ := h0
      exact ⟨hblocks, by rw [hw]; nofun, by rw [hin]; nofun⟩
    · rintro j e _ ⟨hj, hc⟩ ⟨hs, ha, rfl⟩
      exact ⟨hj.step ⟨ha, rfl⟩, hc.event (operations_kept hj) hs⟩
  obtain ⟨hj, hc⟩ := hi.reachable hr
  exact ⟨operations_kept hj, hc⟩

/-- In every run whose events are served, no operation is lost or applied
twice, and the flag is set exactly while a commit or a checkpoint is under
way. What the next poll commits fits into the ring if and only if it does
with its header. -/
theorem worker_never_wedges {j : Journal} (hr : (worker.restrict Served).Reachable j) :
    (j.queued = j.applied ++ j.kvs.pending ++ j.kvs.opLog ∧ j.kvs.table = j.applied.foldl applyOp j.base) ∧
    (j.kvs.working = true ↔ j.kvs.inflight ≠ none) ∧
    ∀ stale, j.kvs.needCheckpoint = false →
      ((batchBuf stale j.kvs.opLog).bytes ≤ j.kvs.rblob.available ↔
        HeaderFits j.kvs.opLength j.kvs.rblob.available) := by
  obtain ⟨hk, hc⟩ := clear_of_reachable hr
  refine ⟨⟨hk.queued, hk.table⟩, ⟨hc.flag, hk.busy⟩, fun stale hneed => ?_⟩
  obtain ⟨w, hw⟩ := hc.blocks
  have hle : j.kvs.opLength ≤ j.kvs.rblob.available := by simpa [KvStore.needCheckpoint] using hneed
  rw [hk.length] at hle ⊢
  exact batchBuf_le_iff hw.dvd_available hle stale

/-- An empty store over a ring of one block. -/
def oneBlock : Journal where
  kvs := { rblob := .make 8192 (fun _ => 0) (fun _ => 0) fun _ _ => 0, checkpoint :=
    { bs := ⟨1, by decide, fun _ => none⟩ } }
  base := ∅
  queued := []
  applied := []

theorem oneBlock_init : worker.init oneBlock := by
  refine ⟨rfl, rfl, rfl, rfl, rfl, rfl, rfl, ⟨0, 0, fun _ => 0⟩, ?_, by decide, by decide, by decide⟩
  exact RollingBlob.refines_make (by decide) (by decide) _ _ _

/-- A key with a value of so many bytes is put, and the poller comes. -/
def putAndPoll (n : Nat) : Journal :=
  (oneBlock.event (.put [107] (some (List.replicate n 118)))).event (.poll fun _ => 0)

/-- With the header the block is full: the batch is committed. -/
theorem putAndPoll_commits : ((putAndPoll 4063).kvs.working = true ↔ (putAndPoll 4063).kvs.inflight ≠ none) ∧
    (putAndPoll 4063).kvs.pending.length = 1 := by
  have h0 : (worker.restrict Served).Reachable oneBlock := .of_init oneBlock_init
  have h1 : (worker.restrict Served).Reachable (oneBlock.event (.put [107] (some (List.replicate 4063 118)))) :=
    h0.step (l := .put [107] (some (List.replicate 4063 118))) ⟨trivial, trivial, rfl⟩
  have hfits : (oneBlock.event (.put [107] (some (List.replicate 4063 118)))).kvs.opLength + 16 ≤
      (oneBlock.event (.put [107] (some (List.replicate 4063 118)))).kvs.rblob.available := by decide +kernel
  have h2 : (worker.restrict Served).Reachable (putAndPoll 4063) :=
    h1.step (l := .poll fun _ => 0) ⟨fun _ _ _ => .inl hfits, trivial, rfl⟩
  exact ⟨(worker_never_wedges h2).2.1, by decide +kernel⟩

/-- One byte more: the operations are not longer than what is left, the
batch is. The commit ends with `ENOSPC`, the flag stays set for nothing,
and no poll does anything any more. -/
theorem putAndPoll_wedges :
    let j := putAndPoll 4064
    worker.Reachable j ∧ j.kvs.needCheckpoint = false ∧
      j.kvs.rblob.available < (batchBuf (fun _ => 0) j.kvs.opLog).bytes ∧
      j.kvs.working = true ∧ j.kvs.pending = [] ∧ j.kvs.opLog.length = 1 ∧
      (∀ stale, j.event (.poll stale) = j) := by
  intro j
  have h0 : worker.Reachable oneBlock := .of_init oneBlock_init
  have h1 : worker.Reachable (oneBlock.event (.put [107] (some (List.replicate 4064 118)))) :=
    h0.step (l := .put [107] (some (List.replicate 4064 118))) ⟨trivial, rfl⟩
  have h2 : worker.Reachable j := h1.step (l := .poll fun _ => 0) ⟨trivial, rfl⟩
  have hworking : j.kvs.working = true := by decide +kernel
  refine ⟨h2, by decide +kernel, by decide +kernel, hworking, by decide +kernel, by decide +kernel, fun stale => ?_⟩
  have hstays : j.kvs.maybeWork stale = j.kvs := if_pos hworking
  show (⟨j.kvs.maybeWork stale, j.base, j.queued ++ [], j.applied ++ []⟩ : Journal) = j
  rw [hstays, List.append_nil, List.append_nil]

end Fastblock.L2.Kv
