import Fastblock.L2Store.KvStore

/-!
# Replaying the ring

After a restart `kvstore_loader` (src/localstore/kv_store.h:500-583) reads
the batches from `back` on. `front` is not used, since the super block may
have an old one: the replay ends at the first batch without operations,
and that is the free part of the ring, if it reads as zero. The device has
to see to that for new and for unmapped blocks (`ReadsZero`): on one that
keeps what was there, the replay goes on into the batches of an earlier
lap (`oldBatch_not_skipped`).

A ring without a free part has no such batch. A read behind its end is
answered at once and leaves the buffer as it is, so the last batch is
decoded and applied again, and again after that. Otherwise each batch is
applied once (`replay_applies_once_iff`), and the table is the one from
before the restart unless the last operation on some key was the put of an
empty value (`replayed_table_iff`, `replay_upon_checkpoint_iff`).
-/
namespace Fastblock.L2.Kv

open Fastblock.Core Fastblock.L1

/-! ## The loader -/

/-- `kvstore_read_ctx`: `len` bytes at `startPos` are read for a batch;
`rberrno` is the result of the last read, and `applied` has the batches that
were applied. -/
structure Loader where
  startPos : Nat
  len : Nat
  readBuf : Buf
  rberrno : Int := 0
  applied : List (List Op) := []

/-- What the caller of the replay gets. -/
structure Replayed where
  rblob : RollingBlob
  rberrno : Int
  applied : List (List Op)

namespace Loader

def dataSize (l : Loader) : Nat := (getOr getFixed64 0 l.readBuf.toList).1

/-- A read of `length` bytes of the ring, `off` behind the start of the
batch and of the buffer. -/
def read (rb : RollingBlob) (l : Loader) (off length : Nat) : Loader :=
  let r := rb.read (l.startPos + off) length ⟨length, fun i => l.readBuf.get (off + i)⟩ true
  { l with rberrno := r.2.1, readBuf := ⟨l.readBuf.bytes, fill l.readBuf.get off length r.2.2.get⟩ }

/-- mirrors kv_store.h:530-575: the next read, or the end. -/
def replayOneBatchDone (rb : RollingBlob) (l : Loader) : Loader ⊕ Replayed :=
  if l.rberrno ≠ 0 then .inr ⟨rb, l.rberrno, l.applied⟩
  else if l.dataSize > l.len then
    .inl ({ l with len := alignCeil l.dataSize }.read rb 4096 (alignCeil l.dataSize - 4096))
  else
    let ops := deserializeOp l.readBuf.toList
    if ops.isEmpty then .inr ⟨rb.setFront l.startPos, 0, l.applied⟩
    else
      .inl ({ l with startPos := l.startPos + l.len, len := 4096, applied := l.applied ++ [ops] }.read rb 0 4096)

/-- At most `n` reads. -/
def run (rb : RollingBlob) : Nat → Loader → Option Replayed
  | 0, _ => none
  | n + 1, l =>
    match l.replayOneBatchDone rb with
    | .inl l => run rb n l
    | .inr r => some r

/-- mirrors kv_store.h:511-528; the buffer holds anything. -/
def replayOneBatch (rb : RollingBlob) (stale : Nat → UInt8) : Loader :=
  { startPos := rb.back.pos, len := 4096, readBuf := ⟨bufSize, stale⟩ : Loader }.read rb 0 4096

end Loader

/-- The replay in at most `n` reads. -/
def replay (rb : RollingBlob) (stale : Nat → UInt8) (n : Nat) : Option Replayed :=
  Loader.run rb n (Loader.replayOneBatch rb stale)

/-! ## Batches in the buffer -/

/-- The memory begins with these bytes. -/
def Begins (m : Nat → UInt8) (bs : List UInt8) : Prop := ∀ i, (h : i < bs.length) → m i = bs[i]

theorem Begins.left {m : Nat → UInt8} {bs bs' : List UInt8} (h : Begins m (bs ++ bs')) : Begins m bs := fun i hi => by
  rw [h i (by rw [List.length_append]; omega), List.getElem_append_left hi]

namespace Loader

variable {l : Loader} {ops : List Op}

theorem toList_of_begins {b : Buf} {bs : List UInt8} (h : Begins b.get bs) (hle : bs.length ≤ b.bytes) :
    ∃ rest, b.toList = bs ++ rest := by
  have hget : ∀ i, i < b.bytes → b.get i = bs.getD i (b.get i) := fun i _ => by
    rcases Nat.lt_or_ge i bs.length with hi | hi
    · rw [h i hi]
      simp [hi]
    · simp [hi]
  obtain ⟨rest, hrest⟩ := Buf.toList_getD hle b.get
  exact ⟨rest, (Buf.toList_congr hget).trans hrest⟩

theorem dataSize_of_begins {size : Nat} (h : Begins l.readBuf.get (leBytes 8 size)) (hs : size < 2 ^ 64)
    (hb : 8 ≤ l.readBuf.bytes) : l.dataSize = size := by
  obtain ⟨rest, hrest⟩ := toList_of_begins h (by rw [length_leBytes]; exact hb)
  rw [dataSize, hrest, getOr_of_reads (reads_getFixed64 hs)]

theorem deserializeOp_of_begins (h : Begins l.readBuf.get (serializeOp ops)) (hle : 16 + opsLength ops ≤ bufSize)
    (hb : l.readBuf.bytes = bufSize) : deserializeOp l.readBuf.toList = ops.map Op.stored := by
  have hlen : (serializeOp ops).length ≤ l.readBuf.bytes := by
    rw [hb]
    exact length_serializeOp_le ops
  obtain ⟨rest, hrest⟩ := toList_of_begins h hlen
  rw [hrest, deserializeOp_serializeOp hle]

/-- A free block has no operations. -/
theorem deserializeOp_of_zero (h : Begins l.readBuf.get (List.replicate 16 0)) (hb : 16 ≤ l.readBuf.bytes) :
    deserializeOp l.readBuf.toList = [] := by
  have hzero : List.replicate 16 0 = leBytes 8 0 ++ leBytes 8 0 := by decide
  obtain ⟨rest, hrest⟩ := toList_of_begins h (by rw [List.length_replicate]; exact hb)
  rw [deserializeOp, hrest, hzero, List.append_assoc, getOr_of_reads (reads_getFixed64 (by decide))]
  rfl

end Loader

/-! ## Batches in the ring -/

/-- The bytes that the batches take. -/
def spans (batches : List (List Op)) : Nat := (batches.map fun ops => alignCeil (serializeOp ops).length).sum

@[simp] theorem spans_cons (ops : List Op) (batches : List (List Op)) :
    spans (ops :: batches) = alignCeil (serializeOp ops).length + spans batches := List.sum_cons

@[simp] theorem spans_append (batches batches' : List (List Op)) :
    spans (batches ++ batches') = spans batches + spans batches' := by simp [spans]

/-- From `p` on there are the batches, and up to `e` nothing else. -/
def Laid (byte : Nat → UInt8) (e : Nat) : Nat → List (List Op) → Prop
  | p, [] => ∀ i, p ≤ i → i < e → byte i = 0
  | p, ops :: batches =>
    Begins (fun i => byte (p + i)) (serializeOp ops) ∧ p + alignCeil (serializeOp ops).length ≤ e ∧
      Laid byte e (p + alignCeil (serializeOp ops).length) batches

/-- What a load reads from the ring: its bytes up to `e`, and behind that
nothing. -/
structure Loads (rb : RollingBlob) (byte : Nat → UInt8) (e : Nat) : Prop where
  inside : ∀ {start length : Nat} (bl : Buf), rb.back.pos ≤ start → start < e → start + length ≤ e → 4096 ∣ start →
    4096 ∣ length → length ≤ bl.bytes → (rb.read start length bl true).2.1 = 0 ∧
      ∀ i, i < length → (rb.read start length bl true).2.2.get i = byte (start + i)
  beyond : ∀ {start : Nat} (length : Nat) (bl : Buf), rb.back.pos ≤ start → e ≤ start →
    (rb.read start length bl true).2 = (0, bl)
  back : 4096 ∣ rb.back.pos
  fin : 4096 ∣ e

/-- A batch that the loader can tell: it has operations, and it was not cut
off by `write_buf`. -/
def Sound (ops : List Op) : Prop := ops ≠ [] ∧ 16 + opsLength ops ≤ bufSize

theorem Sound.length_eq {ops : List Op} (h : Sound ops) : (serializeOp ops).length = 16 + opsLength ops := by
  rw [serializeOp_of_le h.2]
  simp only [List.length_append, length_leBytes, length_flatMap_opBytes]
  omega

theorem Sound.stored_ne {ops : List Op} (h : Sound ops) : (ops.map Op.stored).isEmpty = false := by
  cases ops with
  | nil => exact absurd rfl h.1
  | cons op ops => rfl

namespace Loader

variable {rb : RollingBlob} {byte : Nat → UInt8} {e : Nat} {l : Loader} {ops : List Op}

/-- A read changes the bytes of the buffer and nothing else. -/
theorem read_frame (rb : RollingBlob) (l : Loader) (off length : Nat) :
    (l.read rb off length).startPos = l.startPos ∧ (l.read rb off length).len = l.len ∧
      (l.read rb off length).readBuf.bytes = l.readBuf.bytes ∧ (l.read rb off length).applied = l.applied := by
  unfold read
  exact ⟨rfl, rfl, rfl, rfl⟩

/-- A read within the ring. -/
theorem read_inside (hl : Loads rb byte e) (off length : Nat) (hb : rb.back.pos ≤ l.startPos + off)
    (he : l.startPos + off < e) (hle : l.startPos + off + length ≤ e) (hs : 4096 ∣ l.startPos + off)
    (hu : 4096 ∣ length) :
    (l.read rb off length).rberrno = 0 ∧
      (∀ i, i < length → (l.read rb off length).readBuf.get (off + i) = byte (l.startPos + off + i)) ∧
      ∀ i, i < off → (l.read rb off length).readBuf.get i = l.readBuf.get i := by
  obtain ⟨herr, hget⟩ := hl.inside ⟨length, fun i => l.readBuf.get (off + i)⟩ hb he hle hs hu (Nat.le_refl _)
  refine ⟨herr, fun i hi => ?_, fun i hi => fill_of_not_mem (by omega)⟩
  rw [← hget i hi]
  show fill l.readBuf.get off length _ (off + i) = _
  rw [fill_of_mem (by omega) (by omega), Nat.add_sub_cancel_left]

/-- A read behind the end of the ring leaves the buffer as it is. -/
theorem read_beyond (hl : Loads rb byte e) {off length : Nat} (hb : rb.back.pos ≤ l.startPos + off)
    (he : e ≤ l.startPos + off) : l.read rb off length = { l with rberrno := 0 } := by
  have hfill : fill l.readBuf.get off length (fun i => l.readBuf.get (off + i)) = l.readBuf.get := by
    funext i
    by_cases hi : off ≤ i ∧ i < off + length
    · rw [fill_of_mem hi.1 hi.2, Nat.add_sub_cancel' hi.1]
    · exact fill_of_not_mem hi
  rw [read, hl.beyond length _ hb he, hfill]

/-- Another read. -/
theorem run_inl {l' : Loader} (h : l.replayOneBatchDone rb = .inl l') (n : Nat) : run rb (n + 1) l = run rb n l' := by
  rw [run, h]

theorem run_inr {r : Replayed} (h : l.replayOneBatchDone rb = .inr r) (n : Nat) : run rb (n + 1) l = some r := by
  rw [run, h]

theorem header_of_begins {m : Nat → UInt8} (h : Begins m (serializeOp ops)) (ho : Sound ops) :
    Begins m (leBytes 8 (16 + opsLength ops)) := by
  rw [serializeOp_of_le ho.2] at h
  exact h.left

/-- The size of a batch is in its first bytes. -/
theorem dataSize_of_sound (h : Begins l.readBuf.get (leBytes 8 (16 + opsLength ops))) (ho : Sound ops)
    (hb : l.readBuf.bytes = bufSize) : l.dataSize = 16 + opsLength ops := by
  have hcap : bufSize < 2 ^ 64 := by decide
  have hbuf : 8 ≤ bufSize := by decide
  exact dataSize_of_begins h (Nat.lt_of_le_of_lt ho.2 hcap) (by rw [hb]; exact hbuf)

/-- The whole batch is in the buffer: it is applied, and the next one is
read. -/
theorem done_of_begins (rb : RollingBlob) (h : Begins l.readBuf.get (serializeOp ops)) (ho : Sound ops)
    (hb : l.readBuf.bytes = bufSize) (he : l.rberrno = 0) (hlen : 16 + opsLength ops ≤ l.len) :
    l.replayOneBatchDone rb =
      .inl ({ l with startPos := l.startPos + l.len, len := 4096,
                     applied := l.applied ++ [ops.map Op.stored] }.read rb 0 4096) := by
  rw [replayOneBatchDone, if_neg (not_not.mpr he), dataSize_of_sound (header_of_begins h ho) ho hb,
    if_neg (Nat.not_lt.mpr hlen)]
  dsimp only
  rw [deserializeOp_of_begins h ho.2 hb, ho.stored_ne]
  rfl

/-- The buffer has only a part of the batch. -/
theorem done_of_lt (rb : RollingBlob) (h : Begins l.readBuf.get (leBytes 8 (16 + opsLength ops))) (ho : Sound ops)
    (hb : l.readBuf.bytes = bufSize) (he : l.rberrno = 0) (hlen : l.len < 16 + opsLength ops) :
    l.replayOneBatchDone rb =
      .inl ({ l with len := alignCeil (16 + opsLength ops) }.read rb 4096
        (alignCeil (16 + opsLength ops) - 4096)) := by
  rw [replayOneBatchDone, if_neg (not_not.mpr he), dataSize_of_sound h ho hb, if_pos hlen]

/-- A free block ends the replay. -/
theorem done_of_zero (rb : RollingBlob) (h : Begins l.readBuf.get (List.replicate 16 0))
    (hb : l.readBuf.bytes = bufSize)
    (he : l.rberrno = 0) : l.replayOneBatchDone rb = .inr ⟨rb.setFront l.startPos, 0, l.applied⟩ := by
  have hbuf : 16 ≤ l.readBuf.bytes := by
    rw [hb]
    decide
  have hsize : Begins l.readBuf.get (leBytes 8 0) := by
    have hzero : List.replicate 16 0 = leBytes 8 0 ++ leBytes 8 0 := by decide
    rw [hzero] at h
    exact h.left
  rw [replayOneBatchDone, if_neg (not_not.mpr he), dataSize_of_begins hsize (by decide) (by omega), if_neg (by omega)]
  dsimp only
  rw [deserializeOp_of_zero h hbuf]
  rfl

/-- The block at `p` was read. -/
structure At (byte : Nat → UInt8) (e p : Nat) (l : Loader) : Prop where
  startPos : l.startPos = p
  len : l.len = 4096
  bytes : l.readBuf.bytes = bufSize
  rberrno : l.rberrno = 0
  block : p < e → ∀ i, i < 4096 → l.readBuf.get i = byte (p + i)

/-- The next block, or none if the ring ends here. -/
theorem at_read (hl : Loads rb byte e) {p : Nat} (hp : l.startPos = p) (hlen : l.len = 4096)
    (hbuf : l.readBuf.bytes = bufSize) (hb : rb.back.pos ≤ p) (hd : 4096 ∣ p) : At byte e p (l.read rb 0 4096) := by
  subst hp
  have hfin := hl.fin
  rcases Nat.lt_or_ge l.startPos e with he | he
  · obtain ⟨herr, hget, -⟩ := read_inside hl 0 4096 hb he (by omega) hd (Nat.dvd_refl 4096)
    refine ⟨rfl, hlen, hbuf, herr, fun _ i hi => ?_⟩
    have h := hget i hi
    rwa [Nat.zero_add, Nat.add_zero] at h
  · rw [read_beyond hl hb he]
    exact ⟨rfl, hlen, hbuf, rfl, fun hlt => absurd hlt (Nat.not_lt.mpr he)⟩

/-- A batch is read in one go or in two, and applied; then the next block is
read. -/
theorem At.batch (hl : Loads rb byte e) {p : Nat} (h : At byte e p l) (hb : rb.back.pos ≤ p) (hd : 4096 ∣ p)
    (ho : Sound ops) (hbegins : Begins (fun i => byte (p + i)) (serializeOp ops))
    (hfit : p + alignCeil (serializeOp ops).length ≤ e) :
    ∃ (k : Nat) (l' : Loader), (∀ n, run rb (n + k) l = run rb n (l'.read rb 0 4096)) ∧
      l'.startPos = p + alignCeil (serializeOp ops).length ∧ l'.len = 4096 ∧ l'.readBuf.bytes = bufSize ∧
      l'.applied = l.applied ++ [ops.map Op.stored] ∧ Begins l'.readBuf.get (serializeOp ops) := by
  have hlen := ho.length_eq
  have hceil := le_alignCeil (serializeOp ops).length
  have hdvd := dvd_alignCeil (serializeOp ops).length
  have hblock := h.block (by omega)
  rcases Nat.lt_or_ge 4096 (16 + opsLength ops) with hlong | hshort
  · -- the first block has the size, and the others are read behind it
    have hheader : Begins l.readBuf.get (leBytes 8 (16 + opsLength ops)) := fun i hi => by
      rw [hblock i (by rw [length_leBytes] at hi; omega)]
      exact header_of_begins hbegins ho i hi
    have hdone := done_of_lt rb hheader ho h.bytes h.rberrno (by rw [h.len]; exact hlong)
    rw [← hlen] at hdone
    obtain ⟨l₁, hl₁, hstart, hlen₁, hbuf₁, happlied₁⟩ : ∃ l₁ : Loader,
        { l with len := alignCeil (serializeOp ops).length } = l₁ ∧ l₁.startPos = p ∧
        l₁.len = alignCeil (serializeOp ops).length ∧ l₁.readBuf = l.readBuf ∧ l₁.applied = l.applied :=
      ⟨_, rfl, h.startPos, rfl, rfl, rfl⟩
    rw [hl₁] at hdone
    obtain ⟨hs, hn, hc, ha⟩ := read_frame rb l₁ 4096 (alignCeil (serializeOp ops).length - 4096)
    have hread := read_inside (l := l₁) hl 4096 (alignCeil (serializeOp ops).length - 4096)
      (by omega) (by omega) (by omega) (by omega) (by omega)
    generalize l₁.read rb 4096 (alignCeil (serializeOp ops).length - 4096) = l₂ at hdone hread hs hn hc ha
    have hwhole : Begins l₂.readBuf.get (serializeOp ops) := fun i hi => by
      rcases Nat.lt_or_ge i 4096 with hlt | hge
      · rw [hread.2.2 i hlt, hbuf₁, hblock i hlt]
        exact hbegins i hi
      · obtain ⟨j, rfl⟩ := Nat.exists_eq_add_of_le hge
        rw [hread.2.1 j (by omega), hstart, Nat.add_assoc]
        exact hbegins _ hi
    have hbuf₂ : l₂.readBuf.bytes = bufSize := by rw [hc, hbuf₁, h.bytes]
    have hdone₂ := done_of_begins rb hwhole ho hbuf₂ hread.1 (by omega)
    refine ⟨2, _, fun n => (run_inl hdone (n + 1)).trans (run_inl hdone₂ n), ?_, rfl, hbuf₂, ?_, hwhole⟩
    · dsimp only
      rw [hs, hstart, hn, hlen₁]
    · dsimp only
      rw [ha, happlied₁]
  · have hone : alignCeil (serializeOp ops).length = 4096 := by
      rw [hlen, alignCeil]
      omega
    have hwhole : Begins l.readBuf.get (serializeOp ops) := fun i hi => by
      rw [hblock i (by omega)]
      exact hbegins i hi
    have hdone := done_of_begins rb hwhole ho h.bytes h.rberrno (by rw [h.len]; exact hshort)
    refine ⟨1, _, fun n => run_inl hdone n, ?_, rfl, h.bytes, rfl, hwhole⟩
    dsimp only
    rw [h.startPos, h.len, hone]

/-- The replay of a ring with a free part. -/
theorem At.run_eq (hl : Loads rb byte e) {batches : List (List Op)} (hs : ∀ ops ∈ batches, Sound ops) {p : Nat}
    (h : At byte e p l) (hlaid : Laid byte e p batches) (hb : rb.back.pos ≤ p) (hd : 4096 ∣ p)
    (hfree : p + spans batches < e) :
    ∃ n, run rb n l = some ⟨rb.setFront (p + spans batches), 0, l.applied ++ batches.map (·.map Op.stored)⟩ := by
  induction batches generalizing p l with
  | nil =>
    have hfin := hl.fin
    have hp : p + spans [] = p := rfl
    have hzero : Begins l.readBuf.get (List.replicate 16 0) := fun i hi => by
      rw [List.length_replicate] at hi
      rw [h.block (by omega) i (by omega), hlaid (p + i) (by omega) (by omega), List.getElem_replicate]
    refine ⟨1, (run_inr (done_of_zero rb hzero h.bytes h.rberrno) 0).trans ?_⟩
    rw [h.startPos, hp, List.map_nil, List.append_nil]
  | cons ops batches ih =>
    obtain ⟨hbegins, hfit, hrest⟩ := hlaid
    rw [spans_cons, ← Nat.add_assoc] at hfree
    obtain ⟨k, l', hrun, hstart, hlen, hbuf, happlied, -⟩ :=
      h.batch hl hb hd (hs ops List.mem_cons_self) hbegins hfit
    have hd' : 4096 ∣ p + alignCeil (serializeOp ops).length := Nat.dvd_add hd (dvd_alignCeil _)
    have hat := at_read hl hstart hlen hbuf (Nat.le_add_right_of_le hb) hd'
    obtain ⟨n, hn⟩ := ih (fun ops hops => hs ops (List.mem_cons_of_mem _ hops)) hat hrest (Nat.le_add_right_of_le hb)
      hd' hfree
    refine ⟨n + k, (hrun n).trans (hn.trans ?_)⟩
    rw [spans_cons, ← Nat.add_assoc, (read_frame rb l' 0 4096).2.2.2, happlied, List.append_assoc]
    rfl

/-- More reads do not change the result. -/
theorem run_add {n : Nat} {r : Replayed} (h : run rb n l = some r) (k : Nat) : run rb (n + k) l = some r := by
  induction n generalizing l with
  | zero => cases h
  | succ n ih =>
    rw [Nat.add_right_comm]
    cases hdone : l.replayOneBatchDone rb with
    | inl l' =>
      rw [run_inl hdone] at h ⊢
      exact ih h
    | inr r' =>
      rw [run_inr hdone] at h ⊢
      exact h

theorem run_none {k : Nat} (h : ∀ n, run rb (n + k) l = none) (n : Nat) : run rb n l = none := by
  cases hr : run rb n l with
  | none => rfl
  | some r =>
    have hn := h n
    rw [run_add hr k] at hn
    cases hn

/-- Behind the end of the ring the batch in the buffer is applied for
ever. -/
theorem run_beyond (hl : Loads rb byte e) (ho : Sound ops) (hb : rb.back.pos ≤ l.startPos) (he : e ≤ l.startPos)
    (hbegins : Begins l.readBuf.get (serializeOp ops)) (hbuf : l.readBuf.bytes = bufSize) (herr : l.rberrno = 0)
    (n : Nat) : run rb n l = none := by
  induction n generalizing l with
  | zero => rfl
  | succ n ih =>
    rcases Nat.lt_or_ge l.len (16 + opsLength ops) with hlt | hge
    · have hdone := done_of_lt rb (header_of_begins hbegins ho) ho hbuf herr hlt
      rw [run_inl hdone, read_beyond hl (by exact Nat.le_add_right_of_le hb) (by exact Nat.le_add_right_of_le he)]
      exact ih hb he hbegins hbuf rfl
    · have hdone := done_of_begins rb hbegins ho hbuf herr hge
      have hb' : rb.back.pos ≤ l.startPos + l.len := Nat.le_add_right_of_le hb
      have he' : e ≤ l.startPos + l.len := Nat.le_add_right_of_le he
      rw [run_inl hdone, read_beyond hl (by exact hb') (by exact he')]
      exact ih hb' he' hbegins hbuf rfl

theorem run_read_beyond (hl : Loads rb byte e) (ho : Sound ops) (hb : rb.back.pos ≤ l.startPos) (he : e ≤ l.startPos)
    (hbegins : Begins l.readBuf.get (serializeOp ops)) (hbuf : l.readBuf.bytes = bufSize) (off length n : Nat) :
    run rb n (l.read rb off length) = none := by
  rw [read_beyond hl (Nat.le_add_right_of_le hb) (Nat.le_add_right_of_le he)]
  exact run_beyond (l := { l with rberrno := 0 }) hl ho hb he hbegins hbuf rfl n

/-- The replay of a ring without a free part. -/
theorem At.run_full (hl : Loads rb byte e) {batches : List (List Op)} (hs : ∀ ops ∈ batches, Sound ops) {p : Nat}
    (h : At byte e p l) (hlaid : Laid byte e p batches) (hb : rb.back.pos ≤ p) (hd : 4096 ∣ p)
    (hfull : p + spans batches = e) (hne : batches ≠ []) (n : Nat) : run rb n l = none := by
  induction batches generalizing p l n with
  | nil => exact absurd rfl hne
  | cons ops batches ih =>
    obtain ⟨hbegins, hfit, hrest⟩ := hlaid
    rw [spans_cons, ← Nat.add_assoc] at hfull
    have ho := hs ops List.mem_cons_self
    obtain ⟨k, l', hrun, hstart, hlen, hbuf, -, hbegins'⟩ := h.batch hl hb hd ho hbegins hfit
    refine run_none (k := k) (fun n => (hrun n).trans ?_) n
    have hb' : rb.back.pos ≤ p + alignCeil (serializeOp ops).length := Nat.le_add_right_of_le hb
    have hd' : 4096 ∣ p + alignCeil (serializeOp ops).length := Nat.dvd_add hd (dvd_alignCeil _)
    cases batches with
    | nil =>
      have hnil : spans [] = 0 := rfl
      have he : e ≤ l'.startPos := by
        rw [hnil, Nat.add_zero] at hfull
        rw [hstart, hfull]
      exact run_read_beyond hl ho (by rw [hstart]; exact hb') he hbegins' hbuf 0 4096 n
    | cons ops' batches =>
      have hat := at_read hl hstart hlen hbuf hb' hd'
      exact ih (fun ops hops => hs ops (List.mem_cons_of_mem _ hops)) hat hrest hb' hd' hfull (List.cons_ne_nil _ _) n

end Loader

/-! ## What commits leave in the ring -/

/-- The byte of the ring at a position. -/
def byteAt (rb : RollingBlob) (p : Nat) : UInt8 := rb.dev (rb.posToLba p)

/-- The ring after a restart: `front` is that of the super block. -/
def loaded (rb : RollingBlob) (front : Location) : RollingBlob := { rb with front }

/-- A ring, the batches that were committed to it since it was trimmed, the
table at that time and the table now. -/
structure Ring where
  rb : RollingBlob
  batches : List (List Op)
  base : Table
  table : Table

inductive RingEvent where
  | commit (stale : Nat → UInt8) (ops : List Op)
  | trim

/-- A commit without room is refused. -/
def Ring.event (r : Ring) : RingEvent → Ring
  | .commit stale ops =>
    if (batchBuf stale ops).bytes ≤ r.rb.available then
      ⟨(r.rb.append (batchBuf stale ops)).1, r.batches ++ [ops], r.base, ops.foldl applyOp r.table⟩
    else r
  | .trim => ⟨(r.rb.trimBack r.rb.used).1, [], r.table, r.table⟩

/-- There is no commit without operations, kv_store.h:181-184. -/
def RingEvent.Allowed : RingEvent → Prop
  | .commit _ ops => ops ≠ []
  | .trim => True

/-- Begins with the blob `new`. Commits and trims are those whose requests
succeed. -/
def rings (new : RollingBlob) : Lts Ring RingEvent where
  init r := r.rb = new ∧ r.batches = [] ∧ r.base = r.table ∧ ∃ w, Blocks new w ∧ w.front = w.back
  step r e r' := e.Allowed ∧ r' = r.event e

/-- No batch is cut off by `write_buf`. -/
def Buffered (_ : Ring) : RingEvent → Prop
  | .commit _ ops => 16 + opsLength ops ≤ bufSize
  | .trim => True

/-- New blocks read as zero, and so do blocks that were unmapped. -/
structure ReadsZero (new : RollingBlob) : Prop where
  fresh : ∀ p, byteAt new p = 0
  unmap : ∀ a b, new.unmap a b = 0

structure Ring.Inv (r : Ring) : Prop where
  blocks : ∃ w, Blocks r.rb w
  unmap : ∀ a b, r.rb.unmap a b = 0
  front : r.rb.front.pos = r.rb.back.pos + spans r.batches
  laid : Laid (byteAt r.rb) (r.rb.back.pos + r.rb.size) r.rb.back.pos r.batches
  sound : ∀ ops ∈ r.batches, Sound ops
  table : r.table = r.batches.flatten.foldl applyOp r.base

section

variable {rb : RollingBlob} {w : Window UInt8}

theorem Blocks.back_pos (h : Blocks rb w) : rb.back.pos = w.back := by rw [h.refines.back]

theorem Blocks.front_pos (h : Blocks rb w) : rb.front.pos = w.front := by rw [h.refines.front]

theorem readCtx_loaded (rb : RollingBlob) (front : Location) : (loaded rb front).readCtx = rb.readCtx := rfl

theorem readv_loaded (rb : RollingBlob) (front : Location) : (loaded rb front).readv = rb.readv := rfl

/-- A load reads the ring, whatever `front` is. -/
theorem Blocks.loads (h : Blocks rb w) (front : Location) :
    Loads (loaded rb front) (byteAt rb) (rb.back.pos + rb.size) where
  inside {start length} bl hb he hle hs hu hlen := by
    obtain ⟨herr, hread⟩ := @RollingBlob.read_accepted (loaded rb front) start length bl true hb (.inr rfl) he hle
    have hunit : ∀ {n : Nat}, 4096 ∣ n → unitSize ∣ n := fun hn => Nat.dvd_trans (by decide) hn
    have hback : rb.back.pos ≤ start := hb
    refine ⟨herr, fun i hi => ?_⟩
    rw [hread, readCtx_loaded, readv_loaded, h.refines.readCtx_get (hunit hs) (hunit hu) (by omega) hlen hi]
    rfl
  beyond length bl hb he := RollingBlob.read_behind length bl hb he
  back := by
    have hback : (loaded rb front).back.pos = w.back := h.back_pos
    rw [hback]
    exact h.back
  fin := by
    rw [h.back_pos]
    exact Nat.dvd_add h.back h.size

/-- Behind the batches there is nothing. -/
theorem Laid.free {byte : Nat → UInt8} {e p : Nat} {batches : List (List Op)} (h : Laid byte e p batches) (i : Nat)
    (h₁ : p + spans batches ≤ i) (h₂ : i < e) : byte i = 0 := by
  induction batches generalizing p with
  | nil => exact h i (Nat.le_of_add_right_le h₁) h₂
  | cons ops batches ih =>
    rw [spans_cons, ← Nat.add_assoc] at h₁
    exact ih h.2.2 h₁

/-- A batch behind the others. -/
theorem Laid.snoc {byte byte' : Nat → UInt8} {e p : Nat} {batches : List (List Op)} {ops : List Op}
    (h : Laid byte e p batches) (hfit : p + spans batches + alignCeil (serializeOp ops).length ≤ e)
    (hold : ∀ i, p ≤ i → i < p + spans batches → byte' i = byte i)
    (hnew : Begins (fun i => byte' (p + spans batches + i)) (serializeOp ops))
    (hfree : ∀ i, p + spans batches + alignCeil (serializeOp ops).length ≤ i → i < e → byte' i = byte i) :
    Laid byte' e p (batches ++ [ops]) := by
  induction batches generalizing p with
  | nil =>
    have hnil : p + spans [] = p := rfl
    rw [hnil] at hfit hold hnew hfree
    refine ⟨hnew, hfit, fun i hi hie => ?_⟩
    rw [hfree i hi hie]
    exact h i (by omega) hie
  | cons ops' batches ih =>
    obtain ⟨hbegins, hle, hrest⟩ := h
    rw [spans_cons, ← Nat.add_assoc] at hfit hold hnew hfree
    refine ⟨fun i hi => ?_, hle, ih hrest hfit (fun i hi hie => hold i (by omega) hie) hnew hfree⟩
    have hceil := le_alignCeil (serializeOp ops').length
    dsimp only
    rw [hold (p + i) (by omega) (by omega)]
    exact hbegins i hi

/-- What an append does to the ring. -/
theorem Blocks.append_ring (h : Blocks rb w) {bl : Buf} (hu : 4096 ∣ bl.bytes) (hb : bl.bytes ≤ rb.available) :
    ∃ rb', (rb.append bl).1 = rb' ∧ rb'.back = rb.back ∧ rb'.front.pos = rb.front.pos + bl.bytes ∧ rb'.size = rb.size ∧
      rb'.unmap = rb.unmap ∧ RingPut superSize rb.size rb.dev rb'.dev rb.front.pos bl.bytes bl.get := by
  have hfits := h.refines.keeps.le_available.mp hb
  refine ⟨_, (h.refines.append_accepted hfits).1, rfl, ?_, rfl, rfl, ?_⟩
  · rw [h.front_pos]
  · rw [h.front_pos]
    exact h.refines.append_put (Nat.dvd_trans (by decide) hu) hfits _

/-- What a trim of all does to the ring: what was used reads as zero, if
that is what unmapped blocks do. -/
theorem Blocks.trim_ring (h : Blocks rb w) (hz : ∀ a b, rb.unmap a b = 0) : ∃ rb', (rb.trimBack rb.used).1 = rb' ∧
    rb'.back.pos = rb.front.pos ∧ rb'.front = rb.front ∧ rb'.size = rb.size ∧ rb'.unmap = rb.unmap ∧
    ∀ i, i < rb.size → byteAt rb' (rb.back.pos + i) = if i < rb.used then 0 else byteAt rb (rb.back.pos + i) := by
  have hle := h.refines.holds.le
  have hused : rb.used = w.front - w.back := h.refines.used_eq
  have hunit : unitSize ∣ rb.used := by
    rw [hused]
    exact Nat.dvd_sub h.refines.frontUnit h.refines.backUnit
  obtain ⟨f, hput, hf⟩ := h.refines.trimBack_put hunit (by omega) rb.dev
  rw [RollingBlob.trimBack, if_neg (Nat.lt_irrefl _)]
  refine ⟨_, rfl, ?_, rfl, rfl, rfl, fun i hi => ?_⟩
  · show rb.back.pos + rb.used = rb.front.pos
    rw [h.front_pos, h.back_pos]
    omega
  · have hcell := hput.cells i hi
    obtain ⟨a, b, hi⟩ := hf i
    rw [← h.back_pos, hi, hz] at hcell
    refine (RollingBlob.syncMd_dev (slot_mem (rb.back.pos + i) h.refines.size_pos).1).trans hcell

theorem byteAt_eq {rb rb' : RollingBlob} (h : rb'.size = rb.size) (p : Nat) :
    byteAt rb' p = rb'.dev (slot superSize rb.size p) := by
  rw [← h]
  rfl

end

namespace Ring

variable {r : Ring}

theorem mk_fields (rb : RollingBlob) (batches : List (List Op)) (base table : Table) :
    (mk rb batches base table).rb = rb ∧ (mk rb batches base table).table = table := ⟨rfl, rfl⟩

theorem event_commit {stale : Nat → UInt8} {ops : List Op} (hb : (batchBuf stale ops).bytes ≤ r.rb.available) :
    (r.event (.commit stale ops)).rb = (r.rb.append (batchBuf stale ops)).1 ∧
      (r.event (.commit stale ops)).table = ops.foldl applyOp r.table := by
  have heq : r.event (.commit stale ops) =
      ⟨(r.rb.append (batchBuf stale ops)).1, r.batches ++ [ops], r.base, ops.foldl applyOp r.table⟩ := if_pos hb
  rw [heq]
  exact mk_fields ..

theorem event_trim : (r.event .trim).rb = (r.rb.trimBack r.rb.used).1 ∧ (r.event .trim).table = r.table :=
  mk_fields ..

theorem Inv.used_eq (h : r.Inv) : r.rb.used = spans r.batches := by
  rw [RollingBlob.used, h.front, Nat.add_sub_cancel_left]

theorem Inv.commit (h : r.Inv) {stale : Nat → UInt8} {ops : List Op} (ho : Sound ops) :
    (r.event (.commit stale ops)).Inv := by
  rw [Ring.event]
  split
  · next hb =>
    obtain ⟨w, hw⟩ := h.blocks
    have hu : 4096 ∣ (batchBuf stale ops).bytes := dvd_alignCeil _
    have hbytes : (batchBuf stale ops).bytes = alignCeil (serializeOp ops).length := rfl
    have hblocks := hw.append hu hb
    obtain ⟨rb', heq, hback, hfront, hsize, hunmap, hput⟩ := hw.append_ring hu hb
    rw [heq] at hblocks
    have hle := hw.refines.used_le
    rw [RollingBlob.available, h.used_eq] at hb
    rw [h.used_eq] at hle
    rw [h.front, hbytes] at hput hfront
    rw [hbytes] at hb
    rw [heq]
    have hone : spans [ops] = alignCeil (serializeOp ops).length := List.sum_singleton
    have hlen := le_alignCeil (serializeOp ops).length
    have hbyte : ∀ p, byteAt r.rb p = r.rb.dev (slot superSize r.rb.size p) := byteAt_eq rfl
    refine ⟨⟨_, hblocks⟩, ?_, ?_, ?_, ?_, ?_⟩
    · rw [hunmap]
      exact h.unmap
    · rw [hback, hfront, spans_append, hone, Nat.add_assoc]
    · rw [hback, hsize]
      refine h.laid.snoc (by omega) (fun i h₁ h₂ => ?_) (fun i hi => ?_) fun i h₁ h₂ => ?_
      · rw [byteAt_eq hsize, hbyte, hput.keep h₂ (by omega)]
      · dsimp only
        rw [byteAt_eq hsize, hput.get (by omega) (Nat.le_add_right _ _) (by omega), Nat.add_sub_cancel_left]
        simp [batchBuf, hi]
      · rw [byteAt_eq hsize, hbyte, hput.keep_above h₁ (by omega)]
    · intro ops' hmem
      rcases List.mem_append.mp hmem with hmem | hmem
      · exact h.sound ops' hmem
      · rw [List.mem_singleton.mp hmem]
        exact ho
    · rw [List.flatten_append, List.foldl_append, ← h.table, List.flatten_singleton]
  · exact h

theorem Inv.trim (h : r.Inv) : (r.event .trim).Inv := by
  obtain ⟨w, hw⟩ := h.blocks
  have hblocks := hw.trimBack.1
  obtain ⟨rb', heq, hback, hfront, hsize, hunmap, hcells⟩ := hw.trim_ring h.unmap
  have hle := hw.refines.used_le
  have hused := h.used_eq
  have hpos := h.front
  rw [heq] at hblocks
  rw [Ring.event, heq]
  refine ⟨⟨_, hblocks⟩, ?_, ?_, ?_, nofun, rfl⟩
  · rw [hunmap]
    exact h.unmap
  · rw [hfront, hback]
    rfl
  · intro p h₁ h₂
    rw [hback] at h₁ h₂
    rw [hsize] at h₂
    rcases Nat.lt_or_ge p (r.rb.back.pos + r.rb.size) with hlt | hge
    · obtain ⟨i, rfl⟩ := Nat.exists_eq_add_of_le (show r.rb.back.pos ≤ p by omega)
      rw [hcells i (by omega), if_neg (by omega)]
      exact h.laid.free _ (by omega) hlt
    · -- the position is one lap behind a byte that was used
      obtain ⟨i, rfl⟩ := Nat.exists_eq_add_of_le hge
      have hlap : byteAt rb' (r.rb.back.pos + r.rb.size + i) = byteAt rb' (r.rb.back.pos + i) := by
        rw [byteAt_eq hsize, byteAt_eq hsize, Nat.add_right_comm, slot_add_size]
      rw [hlap, hcells i (by omega), if_pos (by omega)]

end Ring

variable {new : RollingBlob}

theorem rings_inv (hz : ReadsZero new) {r : Ring} (hr : ((rings new).restrict Buffered).Reachable r) : r.Inv := by
  have hi : ((rings new).restrict Buffered).Inductive Ring.Inv := by
    refine ⟨fun r h0 => ?_, ?_⟩
    · obtain ⟨rfl, hnil, htable, w, hw, hempty⟩ := h0
      refine ⟨⟨w, hw⟩, hz.unmap, ?_, ?_, ?_, ?_⟩
      · rw [hw.front_pos, hw.back_pos, hnil, hempty]
        rfl
      · rw [hnil]
        exact fun p _ _ => hz.fresh p
      · rw [hnil]
        nofun
      · rw [hnil, htable]
        rfl
    · rintro r e _ hinv ⟨hg, ha, rfl⟩
      cases e with
      | commit stale ops => exact hinv.commit ⟨ha, hg⟩
      | trim => exact hinv.trim
  exact hi.reachable hr

/-! ## The ring of the worker -/

/-- The batches of the store fit `write_buf`, and a checkpoint trims the
ring without an error. -/
def Smooth (j : Journal) : KvStore.Event → Prop
  | .poll _ => 16 + j.kvs.opLength ≤ bufSize
  | .checkpointDone r _ _ _ _ => 16 + j.kvs.opLength ≤ bufSize ∧ r.trim = fun _ => 0
  | _ => True

/-- The worker on a new ring; its events are served. -/
def smoothWorker (new : RollingBlob) : Lts Journal KvStore.Event where
  init j := worker.init j ∧ (rings new).init ⟨j.kvs.rblob, [], j.kvs.table, j.kvs.table⟩
  step j e j' := Smooth j e ∧ (worker.restrict Served).step j e j'

/-- The ring and the table are those of a run of commits and trims, and so
is the commit in flight. -/
structure KvStore.OnRing (k : KvStore) (new : RollingBlob) : Prop where
  ring : ∃ r, ((rings new).restrict Buffered).Reachable r ∧ r.rb = k.rblob ∧ r.table = k.table
  commit : ∀ ops n bl, k.inflight = some (.commit ops n bl) → Sound ops ∧ ∃ stale, bl = batchBuf stale ops

namespace KvStore

variable {k : KvStore}

/-- Taking the operations for a commit changes neither. -/
theorem OnRing.take (h : k.OnRing new) (hl : k.opLength = opsLength k.opLog) (hle : 16 + k.opLength ≤ bufSize)
    (stale : Nat → UInt8) : (k.commit stale).OnRing new := by
  unfold KvStore.commit
  split
  · exact h
  · split
    · exact h
    · next hneed =>
      have hne : k.opLog ≠ [] := by
        intro hnil
        simp [needCommit, hnil] at hneed
      dsimp only
      split
      · unfold commitDone
        rw [if_pos (by decide)]
        exact ⟨h.ring, fun _ _ _ hin => (by cases hin)⟩
      · refine ⟨h.ring, ?_⟩
        rintro ops n bl ⟨rfl, rfl, rfl⟩
        exact ⟨⟨hne, hl ▸ hle⟩, stale, rfl⟩

theorem OnRing.commitDone {ops : List Op} (h : ∃ r, ((rings new).restrict Buffered).Reachable r ∧ r.rb = k.rblob ∧
    r.table = ops.foldl applyOp k.table) (n : Nat) : (k.commitDone ops n 0).OnRing new := ⟨h, nofun⟩

/-- The batch in flight gets to the ring, and its operations to the
table. -/
theorem OnRing.appendDone (h : k.OnRing new) (hc : k.Clear) {res : Nat → Int} {dev : Nat → UInt8}
    (hres : ∀ ops n bl, k.inflight = some (.commit ops n bl) →
      res 0 = 0 ∧ (k.rblob.IsSplit (.append bl) → res 1 = 0)) : (k.appendDone res dev).OnRing new := by
  unfold KvStore.appendDone
  split
  · next ops n bl hi =>
    obtain ⟨hb, -⟩ := hc.room ops n bl hi
    obtain ⟨h0, h1⟩ := hres ops n bl hi
    obtain ⟨ho, stale, rfl⟩ := h.commit ops n bl hi
    obtain ⟨r, hr, hrb, htable⟩ := h.ring
    have hring : ∃ r, ((rings new).restrict Buffered).Reachable r ∧ r.rb = (k.rblob.append (batchBuf stale ops)).1 ∧
        r.table = ops.foldl applyOp k.table := by
      rw [← hrb] at hb ⊢
      rw [← htable]
      exact ⟨_, hr.step (l := .commit stale ops) ⟨ho.2, ho.1, rfl⟩, Ring.event_commit hb⟩
    rw [← appended_zero k.rblob _ dev] at hring
    rw [RollingBlob.completions_of_ok (.inr h0), RollingBlob.errorDue_append hb h0 h1, commitEnds]
    exact OnRing.commitDone hring n
  · exact h

/-- A trim without an error. -/
theorem trimAll_ok (rb : RollingBlob) : KvCheckpoint.trimAll rb (fun _ => 0) = (rb.trimBack rb.used).1 := by
  have hok : rb.errorDue (fun _ => 0) (.trimBack rb.used) = 0 := by
    rw [RollingBlob.errorDue_ok, RollingBlob.errno, RollingBlob.trimBack, if_neg (Nat.lt_irrefl _)]
  rw [KvCheckpoint.trimAll, if_pos hok]

/-- The ring is trimmed, and the batch behind the checkpoint is in
flight. -/
theorem OnRing.checkpointDone (h : k.OnRing new) (hl : k.opLength = opsLength k.opLog)
    (hle : 16 + k.opLength ≤ bufSize)
    {r : Results} (ht : r.trim = fun _ => 0) (pairs : List Pair) (stale blank stale' : Nat → UInt8) :
    (k.checkpointDone r pairs stale blank stale').OnRing new := by
  unfold KvStore.checkpointDone
  split
  · rcases KvCheckpoint.saveCheckpoint_cases k.checkpoint r k.rblob pairs stale blank with ⟨c, hs⟩ | ⟨c, hs⟩
    · rw [hs]
      exact h
    · obtain ⟨ring, hr, hrb, htable⟩ := h.ring
      have hring : ∃ r', ((rings new).restrict Buffered).Reachable r' ∧ r'.rb = KvCheckpoint.trimAll k.rblob r.trim ∧
          r'.table = k.table := by
        rw [ht, trimAll_ok, ← hrb, ← htable]
        exact ⟨_, hr.step (l := .trim) ⟨trivial, trivial, rfl⟩, Ring.event_trim⟩
      rw [hs, RollingBlob.completions_of_ok (.inr (by rw [ht]))]
      have hidle : ({ k with checkpoint := c, rblob := KvCheckpoint.trimAll k.rblob r.trim } :
          KvStore).checkpointTrimComplete.OnRing new := ⟨hring, nofun⟩
      exact hidle.take hl hle stale'
  · exact h

theorem OnRing.event {j : Journal} (hk : j.Kept) (hc : j.kvs.Clear) (h : j.kvs.OnRing new) {e : Event}
    (hsmooth : Smooth j e) (hs : Served j e) : (j.event e).kvs.OnRing new := by
  cases e with
  | put key value => exact ⟨h.ring, h.commit⟩
  | remove key => exact ⟨h.ring, h.commit⟩
  | poll stale =>
    show (j.kvs.maybeWork stale).OnRing new
    unfold maybeWork
    split
    · exact h
    · split
      · exact ⟨h.ring, nofun⟩
      · split
        · exact h.take hk.length hsmooth stale
        · exact h
  | appendDone res dev => exact h.appendDone hc hs
  | checkpointDone r pairs stale blank stale' =>
    exact h.checkpointDone hk.length hsmooth.1 hsmooth.2 pairs stale blank stale'

end KvStore

section

variable {r : Ring}

/-- A ring with a free part. -/
theorem replay_eq (h : r.Inv) (front : Location) (stale : Nat → UInt8) (hfree : r.rb.used < r.rb.size) :
    ∃ n, replay (loaded r.rb front) stale n =
      some ⟨(loaded r.rb front).setFront r.rb.front.pos, 0, r.batches.map (·.map Op.stored)⟩ := by
  obtain ⟨w, hw⟩ := h.blocks
  have hl := hw.loads front
  have hat := Loader.at_read (l := ⟨r.rb.back.pos, 4096, ⟨bufSize, stale⟩, 0, []⟩) hl rfl rfl rfl
    (Nat.le_refl _) hl.back
  rw [h.used_eq] at hfree
  rw [h.front]
  exact hat.run_eq hl h.sound h.laid (Nat.le_refl _) hl.back (Nat.add_lt_add_left hfree _)

/-- A full ring. -/
theorem replay_none (h : r.Inv) (front : Location) (stale : Nat → UInt8) (hfull : r.rb.used = r.rb.size) (n : Nat) :
    replay (loaded r.rb front) stale n = none := by
  obtain ⟨w, hw⟩ := h.blocks
  have hl := hw.loads front
  have hat := Loader.at_read (l := ⟨r.rb.back.pos, 4096, ⟨bufSize, stale⟩, 0, []⟩) hl rfl rfl rfl
    (Nat.le_refl _) hl.back
  have hpos := hw.refines.size_pos
  have hne : r.batches ≠ [] := by
    intro hnil
    rw [h.used_eq, hnil] at hfull
    have hz : spans [] = 0 := rfl
    omega
  rw [h.used_eq] at hfull
  exact hat.run_full hl h.sound h.laid (Nat.le_refl _) hl.back (by rw [hfull]) hne n

/-- A replay that ends was one of a ring with a free part. -/
theorem used_lt_of_replay (h : r.Inv) {front : Location} {stale : Nat → UInt8} {n : Nat} {x : Replayed}
    (hn : replay (loaded r.rb front) stale n = some x) : r.rb.used < r.rb.size := by
  obtain ⟨w, hw⟩ := h.blocks
  refine Nat.lt_of_le_of_ne hw.refines.used_le fun hfull => ?_
  rw [replay_none h front stale hfull] at hn
  cases hn

/-- The replay has one result. -/
theorem replay_unique {rb : RollingBlob} {stale : Nat → UInt8} {n n' : Nat} {x x' : Replayed}
    (h : replay rb stale n = some x) (h' : replay rb stale n' = some x') : x = x' := by
  have hx := Loader.run_add h n'
  rw [Nat.add_comm, Loader.run_add h' n] at hx
  exact (Option.some.inj hx).symm

/-- The value that the last operation on a key has, if there is one. -/
def lastValue (ops : List Op) (k : Str) : Option (Option Str) := (ops.reverse.find? (·.key = k)).map (·.value)

theorem lookup_foldl (t : Table) (ops : List Op) (k : Str) :
    (ops.foldl applyOp t).lookup k = (lastValue ops k).getD (t.lookup k) := lookup_foldl_applyOp t ops k

theorem lastValue_stored (ops : List Op) (k : Str) :
    lastValue (ops.map Op.stored) k = (lastValue ops k).map (·.filter fun v => !v.isEmpty) := by
  have hkey : ((fun op : Op => decide (op.key = k)) ∘ Op.stored) = fun op => decide (op.key = k) := rfl
  rw [lastValue, lastValue, ← List.map_reverse, List.find?_map, hkey, Option.map_map, Option.map_map]
  rfl

/-- What is read gives a key the same value, over any two tables, unless the
last operation on it is the put of an empty value, or there is none and the
tables differ. -/
theorem lookup_stored_iff (t t' : Table) (ops : List Op) (k : Str) :
    ((ops.map Op.stored).foldl applyOp t').lookup k = (ops.foldl applyOp t).lookup k ↔
      lastValue ops k ≠ some (some []) ∧ (lastValue ops k = none → t'.lookup k = t.lookup k) := by
  rw [lookup_foldl, lookup_foldl, lastValue_stored]
  rcases lastValue ops k with _ | _ | _ | ⟨b, v⟩
  · simp
  · simp
  · simp
  · simp

theorem foldl_stored_upon_iff (t t' : Table) (ops : List Op) :
    (ops.map Op.stored).foldl applyOp t' = ops.foldl applyOp t ↔
      ∀ k, lastValue ops k ≠ some (some []) ∧ (lastValue ops k = none → t'.lookup k = t.lookup k) := by
  constructor
  · intro heq k
    rw [← lookup_stored_iff, heq]
  · exact fun h => Finmap.ext_lookup fun k => (lookup_stored_iff t t' ops k).mpr (h k)

/-- What is read gives the same table unless the last operation on a key is
the put of an empty value. -/
theorem foldl_stored_iff (t : Table) (ops : List Op) :
    (ops.map Op.stored).foldl applyOp t = ops.foldl applyOp t ↔ ∀ k, lastValue ops k ≠ some (some []) := by
  rw [foldl_stored_upon_iff]
  exact forall_congr' fun k => and_iff_left fun _ => rfl

/-- The replay into any table. -/
theorem replay_into_iff (h : r.Inv) (front : Location) (stale : Nat → UInt8) (t₀ t : Table) :
    (∃ n rb applied, replay (loaded r.rb front) stale n = some ⟨rb, 0, applied⟩ ∧
      applied.flatten.foldl applyOp t₀ = t) ↔
      r.rb.used < r.rb.size ∧ (r.batches.flatten.map Op.stored).foldl applyOp t₀ = t := by
  have hflat : (r.batches.map (·.map Op.stored)).flatten = r.batches.flatten.map Op.stored := List.map_flatten.symm
  constructor
  · rintro ⟨n, rb, applied, hn, heq⟩
    have hfree := used_lt_of_replay h hn
    obtain ⟨n', hn'⟩ := replay_eq h front stale hfree
    have happlied : applied = r.batches.map (·.map Op.stored) := congrArg Replayed.applied (replay_unique hn hn')
    rw [happlied, hflat] at heq
    exact ⟨hfree, heq⟩
  · rintro ⟨hfree, heq⟩
    obtain ⟨n, hn⟩ := replay_eq h front stale hfree
    refine ⟨n, _, _, hn, ?_⟩
    rw [hflat]
    exact heq

/-- The replay into the table of the last trim gives the table that the
commits have made of it, if and only if the ring is not full and no key has
the put of an empty value as its last operation. -/
theorem replayed_table_iff (hz : ReadsZero new) (hr : ((rings new).restrict Buffered).Reachable r)
    (front : Location) (stale : Nat → UInt8) :
    (∃ n rb applied, replay (loaded r.rb front) stale n = some ⟨rb, 0, applied⟩ ∧
      applied.flatten.foldl applyOp r.base = r.table) ↔
      r.rb.used < r.rb.size ∧ ∀ k, lastValue r.batches.flatten k ≠ some (some []) := by
  have h := rings_inv hz hr
  have htable := foldl_stored_iff r.base r.batches.flatten
  rw [← h.table] at htable
  rw [replay_into_iff h, htable]

theorem lastValue_left {ops ops' : List Op} {k : Str} (h : lastValue (ops ++ ops') k = none) :
    lastValue ops k = none := by
  rw [lastValue, Option.map_eq_none_iff, List.find?_eq_none] at h ⊢
  exact fun op hop => h op (List.mem_reverse.mpr (List.mem_append_left _ (List.mem_reverse.mp hop)))

/-- The replay into the table of any moment since the last trim. A
checkpoint that was saved at that moment, with the ring not trimmed after
it, is as good as the one of the trim: its batches are applied once more,
and the last operation on a key wins. -/
theorem replay_upon_checkpoint_iff (hz : ReadsZero new) (hr : ((rings new).restrict Buffered).Reachable r)
    (saved : Nat) (front : Location) (stale : Nat → UInt8) :
    (∃ n rb applied, replay (loaded r.rb front) stale n = some ⟨rb, 0, applied⟩ ∧
      applied.flatten.foldl applyOp ((r.batches.take saved).flatten.foldl applyOp r.base) = r.table) ↔
      r.rb.used < r.rb.size ∧ ∀ k, lastValue r.batches.flatten k ≠ some (some []) := by
  have h := rings_inv hz hr
  have hsplit : r.batches.flatten = (r.batches.take saved).flatten ++ (r.batches.drop saved).flatten := by
    rw [← List.flatten_append, List.take_append_drop]
  have hbase : ∀ k, lastValue r.batches.flatten k = none →
      ((r.batches.take saved).flatten.foldl applyOp r.base).lookup k = r.base.lookup k := fun k hnone => by
    rw [hsplit] at hnone
    rw [lookup_foldl, lastValue_left hnone]
    rfl
  rw [replay_into_iff h, h.table, foldl_stored_upon_iff]
  exact and_congr_right fun _ => forall_congr' fun k => and_iff_left (hbase k)

end

/-- A new ring of so many blocks and an empty table, on a device with this
`unmap`. -/
def ringOn (unmap : Nat → UInt8 → UInt8) (blocks : Nat) : Ring :=
  ⟨.make (4096 + 4096 * blocks) (fun _ => 0) (fun _ => 0) unmap, [], ∅, ∅⟩

theorem ringOn_blocks (unmap : Nat → UInt8 → UInt8) {blocks : Nat} (h : 0 < blocks) :
    Blocks (ringOn unmap blocks).rb ⟨0, 0, fun _ => 0⟩ := by
  have hpos : superSize < 4096 + 4096 * blocks := by
    unfold superSize
    omega
  have hunit : unitSize ∣ 4096 + 4096 * blocks := Nat.dvd_add (by decide) (Nat.dvd_mul_right_of_dvd (by decide) _)
  have hsize : 4096 ∣ (ringOn unmap blocks).rb.size := by
    rw [RollingBlob.size]
    exact Nat.dvd_sub (Nat.dvd_add (by decide) (Nat.dvd_mul_right ..)) (by decide)
  exact ⟨RollingBlob.refines_make hpos hunit _ _ _, hsize, by decide, by decide⟩

/-- A new ring where all reads as zero. -/
def newRing (blocks : Nat) : Ring := ringOn (fun _ _ => 0) blocks

theorem newRing_readsZero (blocks : Nat) : ReadsZero (newRing blocks).rb := ⟨fun _ => rfl, fun _ _ => rfl⟩

theorem newRing_init {blocks : Nat} (h : 0 < blocks) : (rings (newRing blocks).rb).init (newRing blocks) :=
  ⟨rfl, rfl, rfl, _, ringOn_blocks _ h, rfl⟩

/-- One operation is committed to a new ring. -/
def putOnce (blocks : Nat) (value : Str) : Ring := (newRing blocks).event (.commit (fun _ => 0) [⟨[107], some value⟩])

theorem putOnce_reachable {blocks : Nat} (h : 0 < blocks) {value : Str} (hv : value.length < 100) :
    ((rings (newRing blocks).rb).restrict Buffered).Reachable (putOnce blocks value) := by
  have h0 : ((rings (newRing blocks).rb).restrict Buffered).Reachable (newRing blocks) := .of_init (newRing_init h)
  have hbuf : Buffered (newRing blocks) (.commit (fun _ => 0) [⟨[107], some value⟩]) := by
    have hle : 16 + opsLength [⟨[107], some value⟩] ≤ 200 := by
      simp [opsLength, Op.length, lengthString, lengthOptString]
      omega
    exact Nat.le_trans hle (by decide)
  exact h0.step (l := .commit (fun _ => 0) [⟨[107], some value⟩]) ⟨hbuf, List.cons_ne_nil _ _, rfl⟩

theorem putOnce_lastValue (key : Str) : lastValue (putOnce 2 [118]).batches.flatten key ≠ some (some []) := by
  have hbatches : (putOnce 2 [118]).batches.flatten = [⟨[107], some [118]⟩] := by decide +kernel
  rw [hbatches]
  by_cases hk : [107] = key <;> simp [lastValue, hk]

/-- A value that is not empty is there after the replay. -/
theorem putOnce_table : ∃ n rb applied, replay (loaded (putOnce 2 [118]).rb ⟨0, 4096⟩) (fun _ => 0) n =
    some ⟨rb, 0, applied⟩ ∧ applied.flatten.foldl applyOp (putOnce 2 [118]).base = (putOnce 2 [118]).table := by
  have hr := putOnce_reachable (show 0 < 2 by decide) (show [(118 : UInt8)].length < 100 by decide)
  exact (replayed_table_iff (newRing_readsZero 2) hr ⟨0, 4096⟩ fun _ => 0).mpr ⟨by decide +kernel, putOnce_lastValue⟩

/-- The checkpoint has the batch already. -/
theorem putOnce_upon_checkpoint : ∃ n rb applied, replay (loaded (putOnce 2 [118]).rb ⟨0, 4096⟩) (fun _ => 0) n =
    some ⟨rb, 0, applied⟩ ∧ applied.flatten.foldl applyOp
      (((putOnce 2 [118]).batches.take 1).flatten.foldl applyOp (putOnce 2 [118]).base) = (putOnce 2 [118]).table := by
  have hr := putOnce_reachable (show 0 < 2 by decide) (show [(118 : UInt8)].length < 100 by decide)
  exact (replay_upon_checkpoint_iff (newRing_readsZero 2) hr 1 ⟨0, 4096⟩ fun _ => 0).mpr
    ⟨by decide +kernel, putOnce_lastValue⟩

/-- The key of an empty value is in the table, and after the replay it is
not. -/
theorem emptyValue_not_replayed : (putOnce 2 []).table.lookup [107] = some [] ∧
    ∃ n rb applied, replay (loaded (putOnce 2 []).rb ⟨0, 4096⟩) (fun _ => 0) n = some ⟨rb, 0, applied⟩ ∧
      (applied.flatten.foldl applyOp (putOnce 2 []).base).lookup [107] = none := by
  have hr := putOnce_reachable (show 0 < 2 by decide) (show ([] : Str).length < 100 by decide)
  have h := rings_inv (newRing_readsZero 2) hr
  obtain ⟨n, hn⟩ := replay_eq h ⟨0, 4096⟩ (fun _ => 0) (by decide +kernel)
  have hbatches : (putOnce 2 []).batches = [[⟨[107], some []⟩]] := by decide +kernel
  refine ⟨?_, n, _, _, hn, ?_⟩
  · rw [h.table, hbatches, lookup_foldl]
    rfl
  · rw [hbatches, lookup_foldl]
    rfl

/-- Three batches on a ring of two blocks, with a trim after the first and
after the second, where unmapped blocks keep what they hold. -/
def threeLaps : Ring :=
  [.commit (fun _ => 0) [⟨[1], some [118]⟩], .trim, .commit (fun _ => 0) [⟨[2], some [118]⟩], .trim,
    .commit (fun _ => 0) [⟨[3], some [118]⟩]].foldl Ring.event (ringOn (fun _ b => b) 2)

theorem Ring.blocks_foldl {r : Ring} (h : ∃ w, Blocks r.rb w) (es : List RingEvent) :
    ∃ w, Blocks (es.foldl Ring.event r).rb w := by
  induction es generalizing r with
  | nil => exact h
  | cons e es ih =>
    obtain ⟨w, hw⟩ := h
    refine ih ?_
    cases e with
    | commit stale ops =>
      by_cases hb : (batchBuf stale ops).bytes ≤ r.rb.available
      · have hu : 4096 ∣ (batchBuf stale ops).bytes := dvd_alignCeil _
        rw [(event_commit hb).1]
        exact ⟨_, hw.append hu hb⟩
      · rw [event, if_neg hb]
        exact ⟨w, hw⟩
    | trim =>
      rw [event_trim.1]
      exact ⟨_, hw.trimBack.1⟩

/-- The block behind the third batch has the second one, and the replay of
the two does not end. -/
theorem oldBatch_not_skipped : threeLaps.rb.used < threeLaps.rb.size ∧
    ∀ n, replay (loaded threeLaps.rb ⟨0, 4096⟩) (fun _ => 0) n = none := by
  obtain ⟨w, hw⟩ : ∃ w, Blocks threeLaps.rb w := Ring.blocks_foldl ⟨_, ringOn_blocks _ (by decide)⟩ _
  have hl := hw.loads ⟨0, 4096⟩
  have hat := Loader.at_read (l := ⟨threeLaps.rb.back.pos, 4096, ⟨bufSize, fun _ => 0⟩, 0, []⟩) hl rfl rfl rfl
    (Nat.le_refl _) hl.back
  have hlaid : Laid (byteAt threeLaps.rb) (threeLaps.rb.back.pos + threeLaps.rb.size) threeLaps.rb.back.pos
      [[⟨[3], some [118]⟩], [⟨[2], some [118]⟩]] := by
    refine ⟨?_, by decide +kernel, ?_, by decide +kernel, ?_⟩
    · unfold Begins
      decide +kernel
    · unfold Begins
      decide +kernel
    · intro i h₁ h₂
      have hend : threeLaps.rb.back.pos + threeLaps.rb.size = 16384 := by decide +kernel
      have hspan : threeLaps.rb.back.pos + alignCeil (serializeOp [⟨[3], some [118]⟩]).length +
        alignCeil (serializeOp [⟨[2], some [118]⟩]).length = 16384 := by decide +kernel
      omega
  refine ⟨by decide +kernel, fun n => ?_⟩
  refine hat.run_full hl (fun ops hops => ?_) hlaid (Nat.le_refl _) hl.back (by decide +kernel) (by simp) n
  simp only [List.mem_cons, List.not_mem_nil, or_false] at hops
  rcases hops with rfl | rfl
  · exact ⟨by simp, by decide +kernel⟩
  · exact ⟨by simp, by decide +kernel⟩

end Fastblock.L2.Kv
