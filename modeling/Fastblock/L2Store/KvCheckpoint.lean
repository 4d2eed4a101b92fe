import Fastblock.L1Blob.Failure
import Fastblock.L2Store.KvTable

/-!
# Saving a checkpoint

`kvstore::save_checkpoint` (src/localstore/kv_store.h:323-399) goes
through the three calls of `kv_checkpoint`
(src/localstore/kv_checkpoint.h, kv_checkpoint.cc): `start_checkpoint`
creates and opens a blob, `write_checkpoint` writes the table to it,
`finish_checkpoint` makes it the checkpoint, syncs its metadata and
deletes the old one. Then the ring is trimmed as a whole. Each of the
callbacks gets the error of the call before it, and none looks at it.

So the ring is trimmed whatever happens, and the table is kept exactly if
all of it was written and synced, or no blob was made and the old
checkpoint has the same table (`trims_behind_checkpoint_iff`). The one
case in which the ring is not trimmed is that of a `_new_blob` that was
left before a restart: it has an id and is not open, and
`spdk_blob_io_writev` is given a null pointer.
-/
namespace Fastblock.L2.Kv

open Fastblock.Core Fastblock.L1

def EBUSY : Int := 16

/-! ## The blob store -/

/-- `fb_blob`: an id, 0 if there is none, and whether the pointer to the
blob is set. -/
structure FbBlob where
  blobid : Nat := 0
  opened : Bool := false
  deriving DecidableEq, Repr

/-- A blob: its bytes, which are unknown after a write that failed, and
whether its metadata were synced. -/
structure Stored where
  bl : Option Buf
  synced : Bool

structure BlobStore where
  clusterSize : Nat
  pos : 0 < clusterSize
  blobs : Nat → Option Stored

namespace BlobStore

variable (bs : BlobStore)

def set (id : Nat) (s : Option Stored) : BlobStore := { bs with blobs := Function.update bs.blobs id s }

/-- The bytes of the clusters for `size` bytes, kv_checkpoint.cc:33. -/
def clusters (size : Nat) : Nat := (size + bs.clusterSize - 1) / bs.clusterSize * bs.clusterSize

theorem le_clusters (size : Nat) : size ≤ bs.clusters size := by
  have hlt := Nat.lt_mul_div_succ (size + bs.clusterSize - 1) bs.pos
  have hpos := bs.pos
  unfold clusters
  rw [Nat.mul_succ, Nat.mul_comm] at hlt
  omega

@[simp] theorem set_self (id : Nat) (s : Option Stored) : (bs.set id s).blobs id = s := Function.update_self ..

theorem set_of_ne {id i : Nat} (h : i ≠ id) (s : Option Stored) : (bs.set id s).blobs i = bs.blobs i :=
  Function.update_of_ne h ..

end BlobStore

/-- What the blob store and the device answer during one checkpoint. -/
structure Results where
  create : Except Int { id : Nat // id ≠ 0 }
  openBlob : Int
  write : Int
  sync : Int
  close : Int
  delete : Int
  trim : Nat → Int

/-! ## Calls -/

structure KvCheckpoint where
  bs : BlobStore
  ckptBlob : FbBlob := {}
  newBlob : FbBlob := {}

namespace KvCheckpoint

variable (c : KvCheckpoint) (r : Results)

/-- mirrors kv_checkpoint.cc:17-43 and kv_checkpoint.h:74-108; a new blob
holds the bytes `blank`. -/
def startCheckpoint (size : Nat) (blank : Nat → UInt8) : KvCheckpoint × Int :=
  if c.newBlob.blobid ≠ 0 then (c, -EBUSY)
  else
    match r.create with
    | .error rberrno => (c, rberrno)
    | .ok id =>
      let c := { c with bs := c.bs.set id (some ⟨some ⟨c.bs.clusters size, blank⟩, false⟩) }
      if r.openBlob ≠ 0 then (c, r.openBlob) else ({ c with newBlob := ⟨id, true⟩ }, 0)

/-- mirrors kv_checkpoint.h:146-184; there is no state after a null
pointer. -/
def writeCheckpoint (bl : Buf) : Option (KvCheckpoint × Int) :=
  if c.newBlob.blobid = 0 then some (c, -EINVAL)
  else if !c.newBlob.opened then none
  else
    let bl := if r.write ≠ 0 then none
      else ((c.bs.blobs c.newBlob.blobid).bind (·.bl)).map fun b => ⟨b.bytes, fill b.get 0 bl.bytes bl.get⟩
    some ({ c with bs := c.bs.set c.newBlob.blobid (some ⟨bl, false⟩) }, r.write)

/-- mirrors kv_checkpoint.h:194-257 -/
def finishCheckpoint : KvCheckpoint × Int :=
  if c.newBlob.blobid = 0 then (c, -EINVAL)
  else
    let old := c.ckptBlob
    let c := { c with ckptBlob := c.newBlob, newBlob := {} }
    if r.sync ≠ 0 then (c, r.sync)
    else
      let synced := (c.bs.blobs c.ckptBlob.blobid).map fun s => { s with synced := true }
      let c := { c with bs := c.bs.set c.ckptBlob.blobid synced }
      if r.close ≠ 0 then (c, r.close)
      else
        let c := { c with ckptBlob := { c.ckptBlob with opened := false } }
        if old.blobid = 0 then (c, 0)
        else if r.delete ≠ 0 then (c, r.delete)
        else ({ c with bs := c.bs.set old.blobid none }, 0)

/-- How a checkpoint ends: `checkpoint_finish_complete` trims the ring, or
the process does not get there. -/
inductive Outcome where
  | trimmed (c : KvCheckpoint) (rb : RollingBlob)
  | crashed (c : KvCheckpoint) (rb : RollingBlob)

/-- `trim_back` of all that is used: the offsets move before the requests
are done. -/
def trimAll (rb : RollingBlob) (res : Nat → Int) : RollingBlob :=
  if rb.errorDue res (.trimBack rb.used) = 0 then (rb.trimBack rb.used).1
  else { rb with back := ⟨rb.back.pos + rb.used, rb.posToLba (rb.back.pos + rb.used)⟩ }

/-- mirrors kv_store.h:323-387: no callback looks at the error it gets. -/
def saveCheckpoint (rb : RollingBlob) (pairs : List Pair) (stale blank : Nat → UInt8) : Outcome :=
  let bl := (encodeTable stale pairs).bl
  let (c, _) := c.startCheckpoint r bl.bytes blank
  match c.writeCheckpoint r bl with
  | none => .crashed c rb
  | some (c, _) =>
    let (c, _) := c.finishCheckpoint r
    .trimmed c (trimAll rb r.trim)

/-! ## What is kept -/

/-- The checkpoint was synced and has the whole table. -/
def Durable (t : Table) : Prop :=
  c.ckptBlob.blobid ≠ 0 ∧ ∃ bl, c.bs.blobs c.ckptBlob.blobid = some ⟨some bl, true⟩ ∧
    ∀ beyond, decodeTable beyond ∅ bl = t

/-- After a trim the table is in the checkpoint; otherwise the ring and the
old checkpoint are as before. -/
def Outcome.Kept (t : Table) (rb : RollingBlob) : Outcome → Prop
  | .trimmed c' _ => c'.Durable t
  | .crashed c' rb' => rb' = rb ∧ c'.bs = c.bs ∧ c'.ckptBlob = c.ckptBlob

/-- Between two checkpoints: no new blob is open, and the checkpoint is in
the blob store. -/
structure Wf : Prop where
  closed : c.newBlob.opened = false
  stored : c.ckptBlob.blobid ≠ 0 → c.bs.blobs c.ckptBlob.blobid ≠ none

/-- The id of a new blob is not used yet. -/
def Fresh : Prop := ∀ id, r.create = .ok id → c.bs.blobs id = none

end KvCheckpoint

namespace Results

variable (r : Results)

/-- A blob was created and opened, and the table was written to it and
synced. -/
def Succeeded : Prop := (∃ id, r.create = .ok id) ∧ r.openBlob = 0 ∧ r.write = 0 ∧ r.sync = 0

/-- There is no blob to write to. -/
def NoBlob : Prop := ∀ id, r.create = .ok id → r.openBlob ≠ 0

end Results

namespace KvCheckpoint

variable {c : KvCheckpoint} {r : Results}

/-- The ring is trimmed, or the process does not get there. -/
theorem saveCheckpoint_cases (c : KvCheckpoint) (r : Results) (rb : RollingBlob) (pairs : List Pair)
    (stale blank : Nat → UInt8) : (∃ c', c.saveCheckpoint r rb pairs stale blank = .crashed c' rb) ∨
      ∃ c', c.saveCheckpoint r rb pairs stale blank = .trimmed c' (trimAll rb r.trim) := by
  unfold saveCheckpoint
  dsimp only
  split
  · exact .inl ⟨_, rfl⟩
  · exact .inr ⟨_, rfl⟩

/-- Without a new blob the calls leave the checkpoint alone. -/
theorem saveCheckpoint_noBlob (hz : c.newBlob.blobid = 0) (hc : c.Wf) (hf : c.Fresh r) (h : r.NoBlob)
    (rb : RollingBlob) (pairs : List Pair) (stale blank : Nat → UInt8) :
    ∃ c', c.saveCheckpoint r rb pairs stale blank = .trimmed c' (trimAll rb r.trim) ∧ c'.ckptBlob = c.ckptBlob ∧
      (c.ckptBlob.blobid ≠ 0 → c'.bs.blobs c.ckptBlob.blobid = c.bs.blobs c.ckptBlob.blobid) := by
  obtain ⟨c', hstart, hz', hckpt, hblobs⟩ : ∃ c',
      (c.startCheckpoint r (encodeTable stale pairs).bl.bytes blank).1 = c' ∧ c'.newBlob.blobid = 0 ∧
      c'.ckptBlob = c.ckptBlob ∧
      (c.ckptBlob.blobid ≠ 0 → c'.bs.blobs c.ckptBlob.blobid = c.bs.blobs c.ckptBlob.blobid) := by
    rw [startCheckpoint, if_neg (not_not.mpr hz)]
    cases hcreate : r.create with
    | error rberrno => exact ⟨c, rfl, hz, rfl, fun _ => rfl⟩
    | ok id =>
      dsimp only
      rw [if_pos (h id hcreate)]
      refine ⟨_, rfl, hz, rfl, fun hne => BlobStore.set_of_ne _ (fun heq => ?_) _⟩
      exact hc.stored hne (heq ▸ hf id hcreate)
  have hwrite : c'.writeCheckpoint r (encodeTable stale pairs).bl = some (c', -EINVAL) := if_pos hz'
  have hfinish : c'.finishCheckpoint r = (c', -EINVAL) := if_pos hz'
  refine ⟨c', ?_, hckpt, hblobs⟩
  rw [saveCheckpoint]
  dsimp only
  rw [hstart, hwrite]
  dsimp only
  rw [hfinish]

/-- The blob at the end of `finish_checkpoint`: whether it is closed and the
old one deleted does not matter. -/
theorem finishCheckpoint_blob {id : Nat} (hid : id ≠ 0) (hnew : c.newBlob.blobid = id)
    (hold : c.ckptBlob.blobid ≠ id) :
    (c.finishCheckpoint r).1.ckptBlob.blobid = id ∧ (c.finishCheckpoint r).1.bs.blobs id =
      if r.sync ≠ 0 then c.bs.blobs id else (c.bs.blobs id).map fun s => { s with synced := true } := by
  subst hnew
  rw [finishCheckpoint, if_neg hid]
  dsimp only
  by_cases hsync : r.sync ≠ 0
  · rw [if_pos hsync, if_pos hsync]
    exact ⟨rfl, rfl⟩
  · rw [if_neg hsync, if_neg hsync]
    by_cases hclose : r.close ≠ 0
    · rw [if_pos hclose]
      exact ⟨rfl, BlobStore.set_self ..⟩
    · rw [if_neg hclose]
      by_cases hnone : c.ckptBlob.blobid = 0
      · rw [if_pos hnone]
        exact ⟨rfl, BlobStore.set_self ..⟩
      · rw [if_neg hnone]
        by_cases hdelete : r.delete ≠ 0
        · rw [if_pos hdelete]
          exact ⟨rfl, BlobStore.set_self ..⟩
        · rw [if_neg hdelete]
          exact ⟨rfl, (BlobStore.set_of_ne _ (Ne.symm hold) _).trans (BlobStore.set_self ..)⟩

/-- The bytes of a new blob after the table was written to it. -/
def content (c : KvCheckpoint) (pairs : List Pair) (stale blank : Nat → UInt8) : Buf :=
  let bl := (encodeTable stale pairs).bl
  ⟨c.bs.clusters bl.bytes, fill blank 0 bl.bytes bl.get⟩

/-- What is known of them: a write that fails leaves nothing that is. -/
def written (c : KvCheckpoint) (r : Results) (pairs : List Pair) (stale blank : Nat → UInt8) : Option Buf :=
  if r.write ≠ 0 then none else some (c.content pairs stale blank)

/-- With a new blob the checkpoint is that blob, with the table if it was
written. -/
theorem saveCheckpoint_blob (hz : c.newBlob.blobid = 0) (hc : c.Wf) (hf : c.Fresh r) {id : { id : Nat // id ≠ 0 }}
    (hcreate : r.create = .ok id) (hopen : r.openBlob = 0) (rb : RollingBlob) (pairs : List Pair)
    (stale blank : Nat → UInt8) :
    ∃ c', c.saveCheckpoint r rb pairs stale blank = .trimmed c' (trimAll rb r.trim) ∧ c'.ckptBlob.blobid = id ∧
      c'.bs.blobs id = some ⟨c.written r pairs stale blank, r.sync = 0⟩ := by
  generalize hbl : (encodeTable stale pairs).bl = bl
  have hstart : (c.startCheckpoint r bl.bytes blank).1 = { c with
      bs := c.bs.set id (some ⟨some ⟨c.bs.clusters bl.bytes, blank⟩, false⟩), newBlob := ⟨id, true⟩ } := by
    rw [startCheckpoint, if_neg (not_not.mpr hz), hcreate]
    dsimp only
    rw [if_neg (not_not.mpr hopen)]
  generalize hc₁ : { c with
      bs := c.bs.set id (some ⟨some ⟨c.bs.clusters bl.bytes, blank⟩, false⟩), newBlob := ⟨id, true⟩ } = c₁ at hstart
  have hwrite : c₁.writeCheckpoint r bl =
      some ({ c₁ with bs := c₁.bs.set id (some ⟨c.written r pairs stale blank, false⟩) }, r.write) := by
    subst hc₁
    rw [writeCheckpoint, if_neg id.2, if_neg (by simp)]
    dsimp only
    rw [BlobStore.set_self]
    subst hbl
    rfl
  generalize hc₂ : { c₁ with bs := c₁.bs.set id (some ⟨c.written r pairs stale blank, false⟩) } = c₂ at hwrite
  have hnew : c₂.newBlob.blobid = id := by rw [← hc₂, ← hc₁]
  have hold : c₂.ckptBlob.blobid ≠ id := by
    rw [← hc₂, ← hc₁]
    intro heq
    exact hc.stored (heq ▸ id.2) (heq ▸ hf id hcreate)
  obtain ⟨hckpt, hblob⟩ := finishCheckpoint_blob (r := r) id.2 hnew hold
  refine ⟨(c₂.finishCheckpoint r).1, ?_, hckpt, ?_⟩
  · rw [saveCheckpoint]
    dsimp only
    rw [hbl, hstart, hwrite]
  · rw [hblob, ← hc₂, BlobStore.set_self]
    by_cases hsync : r.sync = 0
    · rw [if_neg (not_not.mpr hsync), hsync]
      rfl
    · rw [if_pos hsync]
      simp [hsync]

/-- The whole table is in the bytes of the blob, whatever was in it and in
the buffers, exactly if its pairs fit. -/
theorem content_reads_back_iff {t : Table} {pairs : List Pair} (h : t.entries = ↑pairs) (hn : pairs.length < 2 ^ 64) :
    (∀ stale blank beyond, decodeTable beyond ∅ (c.content pairs stale blank) = t) ↔ Fits firstRemain pairs := by
  have hle : ∀ stale blank, (encodeTable stale pairs).bl.bytes ≤ (c.content pairs stale blank).bytes :=
    fun stale blank => c.bs.le_clusters _
  constructor
  · intro hall
    refine fits_of_reads_back h hn fun b => ⟨_, ?_, ?_, hall (fun _ => b) (fun _ => b) fun _ _ => b⟩
    · exact Nat.le_trans (used_le_bytes (fun _ => b) hn).1 (hle _ _)
    · funext i
      show fill (fun _ => b) 0 (encodeTable (fun _ => b) pairs).bl.bytes (encodeTable (fun _ => b) pairs).bl.get i = _
      rw [encodeTable_get hn]
      rcases Nat.lt_or_ge i (encodeTable (fun _ => b) pairs).bl.bytes with hi | hi
      · rw [fill_of_mem (Nat.zero_le i) (by omega), Nat.sub_zero]
      · rw [fill_of_not_mem (by omega), upon_of_le hn _ b hi]
  · intro hf stale blank beyond
    refine decodeTable_of_fits h hn hf beyond stale (Nat.le_trans (used_le_bytes stale hn).2 (hle _ _)) fun i hi => ?_
    have hi := Nat.lt_of_lt_of_le hi (used_le_bytes stale hn).2
    show fill blank 0 (encodeTable stale pairs).bl.bytes (encodeTable stale pairs).bl.get i = _
    rw [fill_of_mem (Nat.zero_le i) (by omega), Nat.sub_zero]

/-- Whatever the blob store and the device answer, the ring is trimmed only
behind the whole table or not at all, if and only if a blob was left from
before, the whole table was written and synced, or no blob was made and the
old checkpoint has the table. -/
theorem trims_behind_checkpoint_iff (hc : c.Wf) (hf : c.Fresh r) {t : Table} {pairs : List Pair}
    (h : t.entries = ↑pairs) (hn : pairs.length < 2 ^ 64) (rb : RollingBlob) :
    (∀ stale blank, (c.saveCheckpoint r rb pairs stale blank).Kept c t rb) ↔
      c.newBlob.blobid ≠ 0 ∨ (r.Succeeded ∧ Fits firstRemain pairs) ∨ (r.NoBlob ∧ c.Durable t) := by
  by_cases hz : c.newBlob.blobid = 0
  · by_cases hno : r.NoBlob
    · have hnot : ¬r.Succeeded := fun ⟨⟨id, hid⟩, hopen, _⟩ => hno id hid hopen
      have hdurable : ∀ stale blank, (c.saveCheckpoint r rb pairs stale blank).Kept c t rb ↔ c.Durable t := by
        intro stale blank
        obtain ⟨c', heq, hckpt, hblobs⟩ := saveCheckpoint_noBlob hz hc hf hno rb pairs stale blank
        rw [heq, Outcome.Kept, Durable, Durable, hckpt]
        exact and_congr_right fun hne => by rw [hblobs hne]
      simp only [hdurable, forall_const, hz, hno, hnot, ne_eq, not_true_eq_false, false_and, false_or, true_and]
    · obtain ⟨id, hcreate, hopen⟩ : ∃ id, r.create = .ok id ∧ r.openBlob = 0 := by
        simpa [Results.NoBlob] using hno
      have hkept : ∀ stale blank, (c.saveCheckpoint r rb pairs stale blank).Kept c t rb ↔
          (r.write = 0 ∧ r.sync = 0) ∧ ∀ beyond, decodeTable beyond ∅ (c.content pairs stale blank) = t := by
        intro stale blank
        obtain ⟨c', heq, hckpt, hblob⟩ := saveCheckpoint_blob hz hc hf hcreate hopen rb pairs stale blank
        rw [heq, Outcome.Kept, Durable, hckpt, hblob, written]
        by_cases hwrite : r.write = 0
        · simp [id.2, hwrite]
        · simp [hwrite]
      rw [← content_reads_back_iff h hn (c := c)]
      simp only [hkept]
      constructor
      · intro hall
        have hok := (hall (fun _ => 0) fun _ => 0).1
        exact .inr (.inl ⟨⟨⟨id, hcreate⟩, hopen, hok⟩, fun stale blank => (hall stale blank).2⟩)
      · rintro (hne | ⟨⟨-, -, hok⟩, hread⟩ | ⟨hno', -⟩)
        · exact absurd hz hne
        · exact fun stale blank => ⟨hok, hread stale blank⟩
        · exact absurd hno' hno
  · have hcrash : ∀ stale blank, c.saveCheckpoint r rb pairs stale blank = .crashed c rb := by
      intro stale blank
      have hstart : c.startCheckpoint r (encodeTable stale pairs).bl.bytes blank = (c, -EBUSY) := if_pos hz
      have hwrite : c.writeCheckpoint r (encodeTable stale pairs).bl = none := by
        rw [writeCheckpoint, if_neg hz, hc.closed]
        rfl
      rw [saveCheckpoint, hstart]
      dsimp only
      rw [hwrite]
    exact iff_of_true (fun stale blank => by rw [hcrash]; exact ⟨rfl, rfl, rfl⟩) (.inl hz)

/-- A blob store with clusters of 1 MiB and no checkpoint in it. -/
def noCheckpoint : KvCheckpoint := { bs := ⟨2 ^ 20, by decide, fun _ => none⟩ }

/-- Every call succeeds. -/
def allSucceed : Results := ⟨.ok ⟨1, by decide⟩, 0, 0, 0, 0, 0, fun _ => 0⟩

theorem wf_noCheckpoint : noCheckpoint.Wf := ⟨rfl, fun h => absurd rfl h⟩

/-- A ring with one block in it. -/
def oneBlock : RollingBlob :=
  ((RollingBlob.make 20480 (fun _ => 0) (fun _ => 0) fun _ b => b).append ⟨4096, fun _ => 1⟩).1

theorem twoPairs_kept :
    (noCheckpoint.saveCheckpoint allSucceed oneBlock twoPairs (fun _ => 9) fun _ => 0).Kept noCheckpoint
      (tableOf twoPairs twoPairs_nodup) oneBlock :=
  (trims_behind_checkpoint_iff wf_noCheckpoint (fun _ _ => rfl) rfl (by decide) oneBlock).mpr
    (.inr (.inl ⟨⟨⟨_, rfl⟩, rfl, rfl, rfl⟩, by decide +kernel⟩)) _ _

/-- No blob can be created, or the write to it fails: the ring is trimmed,
and there is no checkpoint with the table. -/
theorem trimmed_without_checkpoint :
    oneBlock.used = 4096 ∧
      ∀ r ∈ [{ allSucceed with create := .error (-ENOSPC) }, { allSucceed with write := -5 }],
        ∃ c' rb', noCheckpoint.saveCheckpoint r oneBlock twoPairs (fun _ => 9) (fun _ => 0) = .trimmed c' rb' ∧
          rb'.used = 0 ∧ ¬c'.Durable (tableOf twoPairs twoPairs_nodup) := by
  refine ⟨by decide +kernel, fun r hr => ?_⟩
  have hused : (trimAll oneBlock fun _ => 0).used = 0 := by decide +kernel
  simp only [List.mem_cons, List.not_mem_nil, or_false] at hr
  rcases hr with rfl | rfl
  · obtain ⟨c', heq, hckpt, -⟩ := saveCheckpoint_noBlob (r := { allSucceed with create := .error (-ENOSPC) }) rfl
      wf_noCheckpoint (fun _ _ => rfl) (fun _ h => by cases h) oneBlock twoPairs (fun _ => 9) fun _ => 0
    exact ⟨c', _, heq, hused, fun hd => hd.1 (by rw [hckpt]; rfl)⟩
  · obtain ⟨c', heq, hckpt, hblob⟩ := saveCheckpoint_blob (r := { allSucceed with write := -5 }) rfl wf_noCheckpoint
      (fun _ _ => rfl) rfl rfl oneBlock twoPairs (fun _ => 9) fun _ => 0
    refine ⟨c', _, heq, hused, ?_⟩
    rintro ⟨-, bl, hbl, -⟩
    rw [hckpt, hblob] at hbl
    cases hbl

end KvCheckpoint
end Fastblock.L2.Kv
