import Fastblock.L1Blob.Buffer

/-!
# The rolling blob

`rolling_blob` (src/localstore/rolling_blob.h) keeps a stream of bytes in
a blob: the first 4 KiB are the super block, the rest is a ring. Positions
of the stream only grow; the address of a position is the position modulo
the size of the ring.

A call is issued after the one before it has completed, and the requests
to the blob succeed; a call is then one function. Requests are made in
units of 512 bytes, and addresses and lengths are divided by that without
a check (`units`). Positions are natural numbers here: the 64 bits of the
code are enough for any blob's lifetime.

What new and unmapped blocks read as is not known: SPDK leaves it to the
device. Some devices give zeros, and one that ignores the unmap gives the
old bytes. It is the field `unmap` here.
-/
namespace Fastblock.L1

open Fastblock.Core

def superSize : Nat := 4096

def unitSize : Nat := 512

def ENOSPC : Int := 28

def EINVAL : Int := 22

/-- The bytes that a request for `n / unit_size` units is about. -/
def units (n : Nat) : Nat := n / unitSize * unitSize

structure Location where
  pos : Nat
  lba : Nat
  deriving DecidableEq, Repr

structure RwResult where
  startPos : Nat
  len : Nat
  deriving DecidableEq, Repr

/-- `rblob_rw_ctx` of a write. -/
structure WriteCtx where
  startPos : Nat
  lba : Nat
  len : Nat
  iov : Buf

/-- `rblob_rw_ctx` of a read; the `iov` is the part of the buffer at `start`
with room for `room` bytes. -/
structure ReadCtx where
  startPos : Nat
  lba : Nat
  len : Nat
  start : Nat
  room : Nat

structure TrimCtx where
  lba : Nat
  len : Nat

/-- `spdk_blob_io_writev` on the content of the blob. -/
def WriteCtx.run (m : Nat → UInt8) (c : WriteCtx) : Nat → UInt8 := fill m (units c.lba) (units c.len) c.iov.get

/-- `spdk_blob_io_unmap` on a device where an unmapped byte reads as `unmap`
says. -/
def TrimCtx.run (unmap : Nat → UInt8 → UInt8) (m : Nat → UInt8) (c : TrimCtx) : Nat → UInt8 :=
  fill m (units c.lba) (units c.len) fun i => unmap (units c.lba + i) (m (units c.lba + i))

/-- A request and the one that is issued when it is done. -/
structure Chained (C : Type) where
  ctx : C
  next : Option C

def Chained.ctxs {C : Type} (c : Chained C) : List C := c.ctx :: c.next.toList

theorem foldl_ctxs_none {C β : Type} (f : β → C → β) (b : β) (c : C) :
    (Chained.mk c none).ctxs.foldl f b = f b c := rfl

theorem foldl_ctxs_some {C β : Type} (f : β → C → β) (b : β) (c c' : C) :
    (Chained.mk c (some c')).ctxs.foldl f b = f (f b c) c' := rfl

def Chained.last {C : Type} (c : Chained C) : C := c.next.getD c.ctx

/-- A `rolling_blob` with the content `dev` of its blob. What a byte reads
as after it was unmapped is the device's choice: `unmap` gives it from the
address and the byte that was there. -/
structure RollingBlob where
  blobSize : Nat
  front : Location
  back : Location
  super : Nat → UInt8
  inflightRw : List (Nat × Bool)
  dev : Nat → UInt8
  unmap : Nat → UInt8 → UInt8

namespace RollingBlob

/-- The constructor; the super buffer comes from a pool and holds
anything. -/
def make (blobSize : Nat) (super dev : Nat → UInt8) (unmap : Nat → UInt8 → UInt8) : RollingBlob where
  blobSize := blobSize
  front := ⟨0, superSize⟩
  back := ⟨0, superSize⟩
  super := super
  inflightRw := []
  dev := dev
  unmap := unmap

variable (rb : RollingBlob)

def used : Nat := rb.front.pos - rb.back.pos

def size : Nat := rb.blobSize - superSize

def available : Nat := rb.size - rb.used

def isRolled : Bool := rb.front.pos / rb.size != rb.back.pos / rb.size

def needRoll (start length : Nat) : Bool := start / rb.size != (start + length) / rb.size

def posToEnd (pos : Nat) : Nat := rb.size - pos % rb.size

def frontToEnd : Nat := rb.posToEnd rb.front.pos

def backToEnd : Nat := rb.posToEnd rb.back.pos

def beginToFront : Nat := rb.front.pos % rb.size

def posToLba (pos : Nat) : Nat := pos % rb.size + superSize

/-- `std::map::emplace` into `inflight_rw`. -/
def emplace (offset : Nat) (done : Bool) : List (Nat × Bool) → List (Nat × Bool)
  | [] => [(offset, done)]
  | (o, d) :: l =>
    if offset < o then (offset, done) :: (o, d) :: l
    else if offset = o then (o, d) :: l
    else (o, d) :: emplace offset done l

/-- The loop of `maybe_advance_front`: the offsets that are done leave the
map. -/
def advance (pos : Nat) : List (Nat × Bool) → Nat × List (Nat × Bool)
  | [] => (pos, [])
  | (o, d) :: l => if d then advance o l else (pos, (o, d) :: l)

def setFront (pos : Nat) : RollingBlob := { rb with front := ⟨pos, rb.posToLba pos⟩ }

def maybeAdvanceFront (offset : Nat) : RollingBlob :=
  let m := rb.inflightRw.map fun od => if od.1 = offset then (od.1, true) else od
  let (pos, m) := advance rb.front.pos m
  { rb with inflightRw := m }.setFront pos

/-- `spdk_blob_io_readv` into the buffer. -/
def readv (bl : Buf) (c : ReadCtx) : Buf :=
  { bl with get := fill bl.get c.start (min (units c.len) c.room) fun i => rb.dev (units c.lba + i) }

def serializeSuper : Nat → UInt8 :=
  let s := fill rb.super 0 8 (encodeFixed64 rb.back.lba)
  let s := fill s 8 8 (encodeFixed64 rb.back.pos)
  let s := fill s 16 8 (encodeFixed64 rb.front.lba)
  fill s 24 8 (encodeFixed64 rb.front.pos)

/-- `sync_md`: the super block is written. -/
def syncMd : RollingBlob :=
  { rb with super := rb.serializeSuper, dev := fill rb.dev 0 superSize rb.serializeSuper }

/-! ## Calls -/

/-- The requests of an accepted `append`. -/
def appendCtx (bl : Buf) : Chained WriteCtx :=
  let length := bl.bytes
  if rb.isRolled || length < rb.frontToEnd then
    ⟨⟨rb.front.pos, rb.posToLba rb.front.pos, length, bl.toIovec 0 length⟩, none⟩
  else
    let firstLen := rb.frontToEnd
    let secondLen := length - firstLen
    let start := rb.front.pos + firstLen
    ⟨⟨rb.front.pos, rb.posToLba rb.front.pos, firstLen, bl.toIovec 0 firstLen⟩,
      some ⟨start, rb.posToLba start, secondLen, bl.toIovec firstLen secondLen⟩⟩

/-- `rw_done` of the last request of a write. -/
def writeDone (c : WriteCtx) : RollingBlob × RwResult :=
  (rb.maybeAdvanceFront (c.startPos + c.len), ⟨c.startPos, c.len⟩)

/-- rolling_blob.h:150-220. -/
def append (bl : Buf) : RollingBlob × RwResult × Int :=
  if bl.bytes > rb.available then (rb, ⟨rb.front.pos, bl.bytes⟩, -ENOSPC)
  else
    let c := rb.appendCtx bl
    let rb := { rb with inflightRw := emplace (c.last.startPos + c.last.len) false rb.inflightRw }
    let (rb, r) := { rb with dev := c.ctxs.foldl WriteCtx.run rb.dev }.writeDone c.last
    (rb, r, 0)

/-- What `append` does before it returns: the write is issued, or refused
for want of room. -/
def appendSubmit (bl : Buf) : Option (RollingBlob × Chained WriteCtx) :=
  if bl.bytes > rb.available then none
  else
    let c := rb.appendCtx bl
    some ({ rb with inflightRw := emplace (c.last.startPos + c.last.len) false rb.inflightRw }, c)

/-- The write is done. -/
def appendDone (c : Chained WriteCtx) : RollingBlob :=
  ({ rb with dev := c.ctxs.foldl WriteCtx.run rb.dev }.writeDone c.last).1

/-- The length that is read: a load does not read beyond the bytes that
may be used. -/
def readLength (start length : Nat) (isLoad : Bool) : Nat :=
  let maxPos := rb.back.pos + rb.size
  if isLoad && start + length > maxPos then maxPos - rb.front.pos else length

/-- The requests of an accepted `read`. -/
def readCtx (start length : Nat) (bl : Buf) : Chained ReadCtx :=
  if rb.needRoll start length then
    let firstLen := rb.posToEnd start
    let secondLen := length - firstLen
    ⟨⟨start, rb.posToLba start, firstLen, 0, (bl.toIovec 0 firstLen).bytes⟩,
      some ⟨start + firstLen, rb.posToLba (start + firstLen), secondLen, firstLen,
        (bl.toIovec firstLen secondLen).bytes⟩⟩
  else ⟨⟨start, rb.posToLba start, length, 0, bl.bytes⟩, none⟩

/-- rolling_blob.h:229-309: the result, the error number and the buffer
afterwards. -/
def read (start length : Nat) (bl : Buf) (isLoad : Bool) : RwResult × Int × Buf :=
  if start < rb.back.pos then (⟨start, length⟩, -EINVAL, bl)
  else if length > rb.used && !isLoad then (⟨start, length⟩, -ENOSPC, bl)
  else if isLoad && start ≥ rb.back.pos + rb.size then (⟨start, 0⟩, 0, bl)
  else
    let c := rb.readCtx start (rb.readLength start length isLoad) bl
    (⟨c.last.startPos, c.last.len⟩, 0, c.ctxs.foldl rb.readv bl)

/-- The requests of an accepted `trim_back`. -/
def trimBackCtx (length : Nat) : Chained TrimCtx :=
  if !rb.isRolled || length < rb.backToEnd then ⟨⟨rb.back.lba, length⟩, none⟩
  else ⟨⟨rb.back.lba, rb.backToEnd⟩, some ⟨rb.posToLba 0, length - rb.backToEnd⟩⟩

/-- rolling_blob.h:311-364: the offsets change before the requests are
made. -/
def trimBack (length : Nat) : RollingBlob × Int :=
  if length > rb.used then (rb, -ENOSPC)
  else
    let c := rb.trimBackCtx length
    let pos := rb.back.pos + length
    let rb := { rb with back := ⟨pos, rb.posToLba pos⟩ }
    ({ rb with dev := c.ctxs.foldl (TrimCtx.run rb.unmap) rb.dev }.syncMd, 0)

/-- The requests of an accepted `trim_front`. -/
def trimFrontCtx (length : Nat) : Chained TrimCtx :=
  if !rb.isRolled || length < rb.beginToFront then ⟨⟨rb.posToLba (rb.front.pos - length), length⟩, none⟩
  else
    let secondLen := length - rb.beginToFront
    ⟨⟨rb.posToLba 0, rb.beginToFront⟩, some ⟨rb.posToLba (rb.size - secondLen), secondLen⟩⟩

/-- rolling_blob.h:366-421. -/
def trimFront (length : Nat) : RollingBlob × Int :=
  if length > rb.used then (rb, -ENOSPC)
  else
    let c := rb.trimFrontCtx length
    let rb := rb.setFront (rb.front.pos - length)
    ({ rb with dev := c.ctxs.foldl (TrimCtx.run rb.unmap) rb.dev }.syncMd, 0)

/-! ## Where the calls leave `back` and `front` -/

variable {rb}

/-- A trim within the ring moves `back` and nothing else. -/
theorem trimBack_pos {n : Nat} (h : n ≤ rb.used) : ∃ rb', rb.trimBack n = (rb', 0) ∧ rb'.back.pos = rb.back.pos + n ∧
    rb'.front.pos = rb.front.pos ∧ rb'.inflightRw = rb.inflightRw := by
  rw [trimBack, if_neg (by omega)]
  exact ⟨_, rfl, rfl, rfl, rfl⟩

theorem trimFront_pos {n : Nat} (h : n ≤ rb.used) : ∃ rb', rb.trimFront n = (rb', 0) ∧ rb'.back.pos = rb.back.pos ∧
    rb'.front.pos = rb.front.pos - n ∧ rb'.inflightRw = rb.inflightRw := by
  rw [trimFront, if_neg (by omega)]
  exact ⟨_, rfl, rfl, rfl, rfl⟩

/-- Whether or not the write rolls over, its last request ends after all its
bytes. -/
theorem appendCtx_end (bl : Buf) :
    (rb.appendCtx bl).last.startPos + (rb.appendCtx bl).last.len = rb.front.pos + bl.bytes := by
  unfold appendCtx
  dsimp only
  split
  · rfl
  · next h =>
    simp only [Bool.or_eq_true, decide_eq_true_eq, not_or, Nat.not_lt] at h
    change rb.front.pos + rb.frontToEnd + (bl.bytes - rb.frontToEnd) = _
    omega

/-- An append with room is waited for at the position where it ends. -/
theorem appendSubmit_of_le {bl : Buf} (h : bl.bytes ≤ rb.available) : rb.appendSubmit bl =
    some ({ rb with inflightRw := emplace (rb.front.pos + bl.bytes) false rb.inflightRw }, rb.appendCtx bl) := by
  rw [appendSubmit, if_neg (Nat.not_lt.mpr h)]
  dsimp only
  rw [appendCtx_end]

/-- A call of `append` is its submission and the write. -/
theorem append_of_le {bl : Buf} (h : bl.bytes ≤ rb.available) : (rb.append bl).1 =
    { rb with inflightRw := emplace (rb.front.pos + bl.bytes) false rb.inflightRw }.appendDone (rb.appendCtx bl) := by
  rw [append, if_neg (Nat.not_lt.mpr h), appendDone]
  dsimp only
  rw [appendCtx_end]

/-- An accepted append is waited for at the position where it ends. -/
theorem appendSubmit_cases (bl : Buf) : rb.appendSubmit bl = none ∨
    ∃ c : Chained WriteCtx, c.last.startPos + c.last.len = rb.front.pos + bl.bytes ∧
      rb.appendSubmit bl =
        some ({ rb with inflightRw := emplace (rb.front.pos + bl.bytes) false rb.inflightRw }, c) := by
  by_cases h : bl.bytes > rb.available
  · exact .inl (if_pos h)
  · exact .inr ⟨rb.appendCtx bl, appendCtx_end bl, appendSubmit_of_le (Nat.not_lt.mp h)⟩

/-- The write that is waited for is done: `front` is where it ends. -/
theorem appendDone_pos {c : Chained WriteCtx} (h : rb.inflightRw = [(c.last.startPos + c.last.len, false)]) :
    (rb.appendDone c).back = rb.back ∧ (rb.appendDone c).front.pos = c.last.startPos + c.last.len ∧
      (rb.appendDone c).inflightRw = [] := by
  simp [appendDone, writeDone, maybeAdvanceFront, setFront, h, advance]

end RollingBlob
end Fastblock.L1
