import Fastblock.Core.Ring
import Fastblock.Core.Words
import Fastblock.L2Store.SnapshotPoint

/-!
# Reads and writes of objects

`object_store::readwrite` (src/localstore/object_store.cc:512-748) turns a
request for bytes into requests for blocks of 512 bytes. If the offset and
the length are multiples of a block, the blocks go straight to or from the
caller's buffer. Otherwise they are read into a staging buffer, the bytes
are copied to or from it, and a write puts the blocks back.

Offsets and lengths are 64 bit words as in the code, and so is what is
computed from them. A request is the list of its accesses to the blob and
to the two buffers: what they touch is read off the list
(`stays_inside_iff`), and what they do is its run. Over any sequence of
requests that complete one after the other the objects are byte arrays
(`byte_arrays_iff`), unless the table has an entry without an open blob: a
write then goes to a new blob that the table does not get.
-/
namespace Fastblock.L2

open Fastblock.Core

namespace ObjectStore

def unitSize : UInt64 := 512

/-! ## The accesses of a request -/

/-- mirrors object_store.h:117-123 -/
def isLbaAligned (offset length : UInt64) : Bool := offset % unitSize == 0 && length % unitSize == 0

/-- mirrors object_store.h:125-133: the first block, and the number of
blocks. -/
def getPageParameters (offset length : UInt64) : UInt64 × UInt64 :=
  let startLba := offset / unitSize
  let endLba := (offset + length - 1) / unitSize
  (startLba, endLba - startLba + 1)

/-- The caller's buffer and `pin_buf`. -/
inductive Mem
  | buf
  | pin
  deriving DecidableEq, Repr

inductive Access
  /-- `spdk_blob_io_read` or `spdk_blob_io_write` -/
  | io (isRead : Bool) (mem : Mem) (startLba numLba : UInt64)
  /-- `memcpy` between `pin_buf` from a position on and the caller's
  buffer -/
  | copy (isRead : Bool) (pinPos len : UInt64)
  deriving DecidableEq, Repr

/-- mirrors object_store.cc:607-670 and 715-737 -/
def blobReadwrite (offset len : UInt64) (isRead : Bool) : List Access :=
  let (startLba, numLba) := getPageParameters offset len
  if isLbaAligned offset len then [.io isRead .buf startLba numLba]
  else
    [.io true .pin startLba numLba, .copy isRead (offset &&& (unitSize - 1)) len] ++
      if isRead then [] else [.io false .pin startLba numLba]

/-- The length that `readwrite` goes on with, object_store.cc:517-522. -/
def clamp (offset len : UInt64) : UInt64 :=
  if offset + len > UInt64.ofNat blobSize then UInt64.ofNat blobSize - offset else len

/-- mirrors object_store.cc:512-536: the accesses, and the content of the
blob that they go to. A write creates the blob, with the content `blank`,
if none is open; `none` is the refusal of a read. -/
def readwrite (t : Table) (blank : Content) (name : Name) (offset len : UInt64) (isRead : Bool) :
    Option (List Access × Content) :=
  let as := blobReadwrite offset (clamp offset len) isRead
  match t.lookup name with
  | some ⟨.opened c, _⟩ => some (as, c)
  | _ => if isRead then none else some (as, blank)

/-! ## What the accesses do -/

structure Memory where
  blob : Content
  buf : Nat → UInt8
  pin : Nat → UInt8

def Memory.get (m : Memory) : Mem → Nat → UInt8
  | .buf => m.buf
  | .pin => m.pin

def Memory.set (m : Memory) (f : Nat → UInt8) : Mem → Memory
  | .buf => { m with buf := f }
  | .pin => { m with pin := f }

def Access.run (m : Memory) : Access → Memory
  | .io true mem startLba numLba =>
    m.set (fill (m.get mem) 0 (numLba.toNat * 512) fun i => m.blob (startLba.toNat * 512 + i)) mem
  | .io false mem startLba numLba =>
    { m with blob := fill m.blob (startLba.toNat * 512) (numLba.toNat * 512) (m.get mem) }
  | .copy true pinPos len => { m with buf := fill m.buf 0 len.toNat fun i => m.pin (pinPos.toNat + i) }
  | .copy false pinPos len => { m with pin := fill m.pin pinPos.toNat len.toNat m.buf }

def run (as : List Access) (m : Memory) : Memory := as.foldl Access.run m

inductive Reply
  | error (errno : Int)
  | written
  | data (bytes : List UInt8)
  deriving DecidableEq, Repr

def ENOENT : Int := 2

/-- A request with what is in the buffers before it; `blank` is what a new
blob holds. -/
inductive Op
  | read (name : Name) (offset len : UInt64) (buf pin : Nat → UInt8)
  | write (name : Name) (offset len : UInt64) (buf pin : Nat → UInt8) (blank : Content)

/-- The blob that was written to is in the table: it was open, or
`open_done` puts it there, object_store.cc:780-783. `emplace` keeps an
entry that is there. -/
def keepBlob (t : Table) (name : Name) (c : Content) : Table :=
  match t.lookup name with
  | some ⟨.opened _, r⟩ => t.insert name ⟨.opened c, r⟩
  | some _ => t
  | none => t.insert name ⟨.opened c, none⟩

/-- A request that the device completes without an error. -/
def call (t : Table) : Op → Table × Reply
  | .read name offset len buf pin =>
    match readwrite t (fun _ => 0) name offset len true with
    | some (as, c) => (t, .data ((List.range len.toNat).map (run as ⟨c, buf, pin⟩).buf))
    | none => (t, .error (-ENOENT))
  | .write name offset len buf pin blank =>
    match readwrite t blank name offset len false with
    | some (as, c) => (keepBlob t name (run as ⟨c, buf, pin⟩).blob, .written)
    | none => (t, .error (-ENOENT))

def calls (t : Table) : List Op → Table × List Reply
  | [] => (t, [])
  | op :: ops =>
    let (t, r) := call t op
    let (t, rs) := calls t ops
    (t, r :: rs)

/-! ## Byte arrays -/

/-- The same request to objects that are byte arrays. -/
def arrayCall (a : Name → Option Content) : Op → (Name → Option Content) × Reply
  | .read name offset len _ _ =>
    match a name with
    | some c => (a, .data ((List.range len.toNat).map fun i => c (offset.toNat + i)))
    | none => (a, .error (-ENOENT))
  | .write name offset len buf _ blank =>
    (Function.update a name (some (fill ((a name).getD blank) offset.toNat len.toNat buf)), .written)

def arrayCalls (a : Name → Option Content) : List Op → (Name → Option Content) × List Reply
  | [] => (a, [])
  | op :: ops =>
    let (a, r) := arrayCall a op
    let (a, rs) := arrayCalls a ops
    (a, r :: rs)

/-- The request is within the object and not empty. -/
def Op.InObject : Op → Prop
  | .read _ offset len _ _ | .write _ offset len _ _ _ => offset.toNat + len.toNat ≤ blobSize ∧ 0 < len.toNat

instance Op.decidableInObject : DecidablePred Op.InObject
  | .read .. => inferInstanceAs (Decidable (_ ∧ _))
  | .write .. => inferInstanceAs (Decidable (_ ∧ _))

/-! ## Blocks -/

section Blocks

variable {offset len : UInt64}

theorem blobSize_toNat : (UInt64.ofNat blobSize).toNat = 4194304 := rfl

theorem unitSize_toNat : unitSize.toNat = 512 := rfl

theorem isLbaAligned_iff : isLbaAligned offset len = true ↔ offset.toNat % 512 = 0 ∧ len.toNat % 512 = 0 := by
  simp [isLbaAligned, ← UInt64.toNat_inj, unitSize]

theorem pinPos_toNat (offset : UInt64) : (offset &&& (unitSize - 1)).toNat = offset.toNat % 512 := by
  rw [UInt64.toNat_and]
  exact Nat.and_two_pow_sub_one_eq_mod _ 9

theorem startLba_toNat (offset len : UInt64) : (getPageParameters offset len).1.toNat = offset.toNat / 512 := by
  simp [getPageParameters, unitSize]

/-- The number of blocks, with each of the three wraps of its
computation. -/
theorem numLba_toNat (offset len : UInt64) : (getPageParameters offset len).2.toNat =
    ((offset.toNat + len.toNat + (2 ^ 64 - 1)) % 2 ^ 64 / 512 + 2 ^ 64 - offset.toNat / 512 + 1) % 2 ^ 64 := by
  have := offset.toNat_lt
  simp only [getPageParameters, UInt64.toNat_add, UInt64.toNat_sub, UInt64.toNat_div, unitSize_toNat, UInt64.toNat_one]
  omega

theorem clamp_toNat (offset len : UInt64) : (clamp offset len).toNat =
    if 4194304 < (offset.toNat + len.toNat) % 2 ^ 64 then (4194304 + 2 ^ 64 - offset.toNat) % 2 ^ 64
    else len.toNat := by
  have := offset.toNat_lt
  simp only [clamp, gt_iff_lt, UInt64.lt_iff_toNat_lt, UInt64.toNat_add, blobSize_toNat]
  split
  · rw [UInt64.toNat_sub, blobSize_toNat]
    omega
  · rfl

/-- A request within the object is for the blocks that its bytes are in, an
empty one for those around its offset. -/
theorem numLba_of_inObject (h : offset.toNat + len.toNat ≤ blobSize) (hl : offset.toNat ≠ 0 ∨ len.toNat ≠ 0) :
    (getPageParameters offset len).2.toNat = (offset.toNat + len.toNat - 1) / 512 + 1 - offset.toNat / 512 := by
  unfold blobSize at h
  rw [numLba_toNat]
  omega

theorem clamp_of_inObject (h : offset.toNat + len.toNat ≤ blobSize) : clamp offset len = len := by
  unfold blobSize at h
  rw [← UInt64.toNat_inj, clamp_toNat, if_neg (by omega)]

/-- A read within the object puts its bytes into the caller's buffer. -/
theorem run_read (h : offset.toNat + len.toNat ≤ blobSize) (hl : offset.toNat ≠ 0 ∨ len.toNat ≠ 0)
    (m : Memory) {i : Nat}
    (hi : i < len.toNat) : (run (blobReadwrite offset len true) m).buf i = m.blob (offset.toNat + i) := by
  have hs := startLba_toNat offset len
  have hn := numLba_of_inObject h hl
  have hp := pinPos_toNat offset
  simp only [blobReadwrite]
  split
  · next ha =>
    rw [isLbaAligned_iff] at ha
    simp only [run, List.foldl_cons, List.foldl_nil, Access.run, Memory.set, Memory.get]
    rw [fill_of_mem (Nat.zero_le i) (by omega)]
    congr 1
    omega
  · simp only [run, List.foldl_cons, List.foldl_nil, Access.run, Memory.set, Memory.get, List.append_nil, if_true]
    rw [fill_of_mem (Nat.zero_le i) (by omega), fill_of_mem (Nat.zero_le _) (by omega)]
    congr 1
    omega

/-- A write within the object puts the caller's bytes into the blob and
keeps all others. -/
theorem run_write (h : offset.toNat + len.toNat ≤ blobSize) (hl : offset.toNat ≠ 0 ∨ len.toNat ≠ 0) (m : Memory) :
    (run (blobReadwrite offset len false) m).blob = fill m.blob offset.toNat len.toNat m.buf := by
  have hs := startLba_toNat offset len
  have hn := numLba_of_inObject h hl
  have hp := pinPos_toNat offset
  simp only [blobReadwrite]
  split
  · next ha =>
    rw [isLbaAligned_iff] at ha
    simp only [run, List.foldl_cons, List.foldl_nil, Access.run, Memory.get]
    rw [show (getPageParameters offset len).1.toNat * 512 = offset.toNat by omega,
      show (getPageParameters offset len).2.toNat * 512 = len.toNat by omega]
  · simp only [run, List.foldl_cons, List.foldl_nil, Access.run, Memory.set, Memory.get, List.cons_append,
      List.nil_append, Bool.false_eq_true, if_false]
    funext p
    by_cases hin : offset.toNat ≤ p ∧ p < offset.toNat + len.toNat
    · rw [fill_of_mem (by omega) (by omega), fill_of_mem (by omega) (by omega), fill_of_mem hin.1 hin.2]
      congr 1
      omega
    · rw [fill_of_not_mem hin]
      by_cases hb : (getPageParameters offset len).1.toNat * 512 ≤ p ∧
          p < (getPageParameters offset len).1.toNat * 512 + (getPageParameters offset len).2.toNat * 512
      · -- a byte of a block that is written back: it is the one that was read
        rw [fill_of_mem hb.1 hb.2, fill_of_not_mem (by omega), fill_of_mem (Nat.zero_le _) (by omega)]
        congr 1
        omega
      · exact fill_of_not_mem hb

end Blocks

/-! ## The objects are byte arrays -/

/-- The objects that have an open blob. -/
def contents (t : Table) (name : Name) : Option Content :=
  match t.lookup name with
  | some ⟨.opened c, _⟩ => some c
  | _ => none

/-- Every entry of the table has an open blob. -/
def AllOpen (t : Table) : Prop := ∀ name o, t.lookup name = some o → ∃ c, o.origin = .opened c

section Arrays

variable {t : Table} {name : Name}

theorem contents_opened {c : Content} {r : Option Content} (h : t.lookup name = some ⟨.opened c, r⟩) :
    contents t name = some c := by
  rw [contents, h]

theorem contents_cases (t : Table) (name : Name) :
    (∃ c r, t.lookup name = some ⟨.opened c, r⟩) ∨ contents t name = none := by
  unfold contents
  split
  · next c r ho => exact .inl ⟨c, r, ho⟩
  · exact .inr rfl

theorem contents_insert (c : Content) (r : Option Content) :
    contents (t.insert name ⟨.opened c, r⟩) = Function.update (contents t) name (some c) := by
  funext n
  by_cases hn : n = name
  · subst hn
    simp [contents]
  · simp [contents, hn]

theorem AllOpen.insert (h : AllOpen t) (c : Content) (r : Option Content) :
    AllOpen (t.insert name ⟨.opened c, r⟩) := by
  intro n o ho
  by_cases hn : n = name
  · subst hn
    rw [AList.lookup_insert] at ho
    exact ⟨c, by rw [← Option.some.inj ho]⟩
  · rw [AList.lookup_insert_ne hn] at ho
    exact h n o ho

theorem AllOpen.cases (h : AllOpen t) (name : Name) :
    (∃ c r, t.lookup name = some ⟨.opened c, r⟩) ∨ t.lookup name = none := by
  cases ho : t.lookup name with
  | none => exact .inr rfl
  | some o =>
    obtain ⟨c, hc⟩ := h name o ho
    exact .inl ⟨c, o.recover, by rw [← hc]⟩

theorem readwrite_opened {c : Content} {r : Option Content} (h : t.lookup name = some ⟨.opened c, r⟩) (blank : Content)
    (offset len : UInt64) (isRead : Bool) :
    readwrite t blank name offset len isRead = some (blobReadwrite offset (clamp offset len) isRead, c) := by
  simp only [readwrite, h]

/-- Without an open blob a read is refused and a write gets a new one. -/
theorem readwrite_create (h : contents t name = none) (blank : Content) (offset len : UInt64) (isRead : Bool) :
    readwrite t blank name offset len isRead =
      if isRead then none else some (blobReadwrite offset (clamp offset len) isRead, blank) := by
  cases ho : t.lookup name with
  | none => simp only [readwrite, ho]
  | some o =>
    obtain ⟨origin, r⟩ := o
    cases origin with
    | opened c => rw [contents_opened ho] at h; cases h
    | gone => simp only [readwrite, ho]
    | closed c => simp only [readwrite, ho]

/-- One request within its object. -/
theorem AllOpen.call (h : AllOpen t) {op : Op} (hop : op.InObject) :
    AllOpen (call t op).1 ∧ contents (call t op).1 = (arrayCall (contents t) op).1 ∧
      (call t op).2 = (arrayCall (contents t) op).2 := by
  cases op with
  | read name offset len buf pin =>
    rcases h.cases name with ⟨c, r, ho⟩ | ho
    · simp only [ObjectStore.call, readwrite_opened ho, arrayCall, contents_opened ho]
      refine ⟨h, trivial, ?_⟩
      rw [clamp_of_inObject hop.1]
      refine congrArg Reply.data (List.map_congr_left fun i hi => ?_)
      exact run_read hop.1 (.inr (Nat.ne_of_gt hop.2)) ⟨c, buf, pin⟩ (List.mem_range.mp hi)
    · have hc : contents t name = none := by rw [contents, ho]
      simp only [ObjectStore.call, readwrite_create hc, if_true, arrayCall, hc]
      exact ⟨h, trivial, trivial⟩
  | write name offset len buf pin blank =>
    rcases h.cases name with ⟨c, r, ho⟩ | ho
    · simp only [ObjectStore.call, readwrite_opened ho, keepBlob, ho, arrayCall, contents_opened ho,
        clamp_of_inObject hop.1, run_write hop.1 (.inr (Nat.ne_of_gt hop.2))]
      exact ⟨h.insert _ _, contents_insert _ _, trivial⟩
    · have hc : contents t name = none := by rw [contents, ho]
      simp only [ObjectStore.call, readwrite_create hc, keepBlob, ho, arrayCall, hc, clamp_of_inObject hop.1,
        Bool.false_eq_true, if_false, run_write hop.1 (.inr (Nat.ne_of_gt hop.2))]
      exact ⟨h.insert _ _, contents_insert _ _, trivial⟩

theorem AllOpen.calls (h : AllOpen t) {ops : List Op} (hops : ∀ op ∈ ops, op.InObject) :
    contents (calls t ops).1 = (arrayCalls (contents t) ops).1 ∧
      (calls t ops).2 = (arrayCalls (contents t) ops).2 := by
  induction ops generalizing t with
  | nil => exact ⟨rfl, rfl⟩
  | cons op ops ih =>
    obtain ⟨hopen, hcont, hreply⟩ := h.call (hops op List.mem_cons_self)
    obtain ⟨ihc, ihr⟩ := ih hopen fun o ho => hops o (List.mem_cons_of_mem op ho)
    rw [hcont] at ihc ihr
    exact ⟨ihc, congrArg₂ List.cons hreply ihr⟩

/-- An entry without an open blob keeps what is written to its object from
the reads that follow. -/
theorem call_write_lost {o : Object} (ho : t.lookup name = some o) (hn : ∀ c, o.origin ≠ .opened c)
    (offset len : UInt64) (buf pin : Nat → UInt8) (blank : Content) :
    call t (.write name offset len buf pin blank) = (t, .written) ∧
      call t (.read name offset len buf pin) = (t, .error (-ENOENT)) := by
  obtain ⟨origin, r⟩ := o
  cases origin with
  | opened c => exact absurd rfl (hn c)
  | gone => simp [call, readwrite, keepBlob, ho]
  | closed c => simp [call, readwrite, keepBlob, ho]

end Arrays

/-- The objects are byte arrays over every sequence of requests if and
only if each entry of the table has an open blob: each read gives the
bytes written last, and a write changes no byte outside of its own. -/
theorem byte_arrays_iff (t : Table) :
    (∀ ops : List Op, (∀ op ∈ ops, op.InObject) →
      contents (calls t ops).1 = (arrayCalls (contents t) ops).1 ∧
        (calls t ops).2 = (arrayCalls (contents t) ops).2) ↔ AllOpen t := by
  refine ⟨fun h name o ho => ?_, fun h ops hops => h.calls hops⟩
  by_contra hn
  -- a byte is written and read back
  obtain ⟨hw, hr⟩ := call_write_lost ho (fun c hc => hn ⟨c, hc⟩) 0 1 (fun _ => 7) (fun _ => 0) fun _ => 0
  have hin : ∀ op ∈ [Op.write name 0 1 (fun _ => 7) (fun _ => 0) fun _ => 0, Op.read name 0 1 (fun _ => 7) fun _ => 0],
      op.InObject := by simp [Op.InObject, blobSize]
  have := (h _ hin).2
  simp [calls, hw, hr, arrayCalls, arrayCall] at this

/-- The object was deleted while it had a copy, as `delete_complete` leaves
it. It is written, and the byte is not there to be read. -/
theorem deleted_with_copy_loses_write :
    let s : State := { table := (∅ : Table).insert [1] ⟨.closed fun _ => 0, some fun _ => 0⟩
                       lastAppliedIdx := 0
                       commitIdx := 1 }
    let ops : List Op := [.write [1] 0 1 (fun _ => 7) (fun _ => 0) fun _ => 0, .read [1] 0 1 (fun _ => 0) fun _ => 0]
    ∃ s', s.applyDone (fun _ => 0) 1 true (.deleting [1]) = some s' ∧ (∀ op ∈ ops, op.InObject) ∧
      (calls s'.table ops).2 = [.written, .error (-ENOENT)] ∧
      (arrayCalls (contents s'.table) ops).2 = [.written, .data [7]] := by
  refine ⟨_, rfl, by decide, ?_, ?_⟩ <;> decide

/-! ## The bytes that a request touches -/

/-- mirrors utils.h:127-131 -/
def alignUp (v align : UInt64) : UInt64 := (v + align - 1) &&& ~~~(align - 1)

/-- The bytes of the caller's buffer: `len` of those that `write_obj` and
`read_and_wait` allocate, osd_stm.cc:80-81 and 231-232. -/
def bufBytes (len : UInt64) : Nat := min len.toNat (alignUp len 4096).toNat

/-- The blocks are those of the blob, and the caller's buffer is long
enough. -/
def Access.Inside (len : UInt64) : Access → Prop
  | .io _ mem startLba numLba => startLba.toNat + numLba.toNat ≤ blobSize / 512 ∧
      (mem = .buf → numLba.toNat * 512 ≤ bufBytes len)
  | .copy _ _ n => n.toNat ≤ bufBytes len

instance Access.decidableInside (len : UInt64) : DecidablePred (Access.Inside len)
  | .io .. => inferInstanceAs (Decidable (_ ∧ _))
  | .copy .. => inferInstanceAs (Decidable (_ ≤ _))

section Inside

variable {offset len : UInt64}

theorem alignUp_toNat (v : UInt64) : (alignUp v 4096).toNat = (v.toNat + 4095) % 2 ^ 64 / 4096 * 4096 := by
  have hv : (v + 4096 - 1).toNat = (v.toNat + 4095) % 2 ^ 64 := by
    rw [UInt64.toNat_sub, UInt64.toNat_add, UInt64.toNat_one, show (4096 : UInt64).toNat = 4096 from rfl]
    omega
  have hround := and_not_low_toNat (v + 4096 - 1) (show 12 < 64 by decide)
  rw [show UInt64.ofNat (2 ^ 12) = 4096 from rfl, hv] at hround
  exact hround

theorem bufBytes_eq (len : UInt64) : bufBytes len = if len.toNat + 4095 < 2 ^ 64 then len.toNat else 0 := by
  have := len.toNat_lt
  rw [bufBytes, alignUp_toNat]
  split <;> omega

/-- The blocks of a request, and the bytes that it puts into the caller's
buffer or takes from there. -/
theorem blobReadwrite_inside (offset n len : UInt64) (isRead : Bool) :
    (∀ a ∈ blobReadwrite offset n isRead, a.Inside len) ↔
      offset.toNat / 512 + (getPageParameters offset n).2.toNat ≤ 8192 ∧
        if offset.toNat % 512 = 0 ∧ n.toNat % 512 = 0 then (getPageParameters offset n).2.toNat * 512 ≤ bufBytes len
        else n.toNat ≤ bufBytes len := by
  simp only [blobReadwrite, ← isLbaAligned_iff, ← startLba_toNat offset n]
  split
  · simp [Access.Inside, blobSize]
  · cases isRead <;> simp [Access.Inside, blobSize, and_comm]

theorem inside_of_le (ho : offset.toNat ≤ blobSize) (hw : offset.toNat + len.toNat < 2 ^ 64)
    (hl : len.toNat + 4095 < 2 ^ 64) (hz : offset.toNat ≠ 0 ∨ len.toNat ≠ 0) (isRead : Bool) :
    ∀ a ∈ blobReadwrite offset (clamp offset len) isRead, a.Inside len := by
  have hn := numLba_toNat offset (clamp offset len)
  have hc := clamp_toNat offset len
  have hb := bufBytes_eq len
  unfold blobSize at ho
  rw [if_pos hl] at hb
  rw [blobReadwrite_inside, hb]
  split at hc <;> split <;> omega

theorem le_of_inside {isRead : Bool} (h : ∀ a ∈ blobReadwrite offset (clamp offset len) isRead, a.Inside len) :
    offset.toNat ≤ blobSize ∧ offset.toNat + len.toNat < 2 ^ 64 ∧ len.toNat + 4095 < 2 ^ 64 ∧
      (offset.toNat ≠ 0 ∨ len.toNat ≠ 0) := by
  have hn := numLba_toNat offset (clamp offset len)
  have hc := clamp_toNat offset len
  have hb := bufBytes_eq len
  have ho := offset.toNat_lt
  have hl := len.toNat_lt
  rw [blobReadwrite_inside] at h
  unfold blobSize
  obtain ⟨hr, hbuf⟩ := h
  split at hc <;> split at hb <;> split at hbuf <;> omega

end Inside

/-- A request stays within the blob and the caller's buffer if and only if
it is refused, or its offset is not beyond the blob, the sums of the code
do not wrap, and it is not an empty one at the start of the object. -/
theorem stays_inside_iff (t : Table) (blank : Content) (name : Name) (offset len : UInt64) (isRead : Bool) :
    (∀ as c, readwrite t blank name offset len isRead = some (as, c) → ∀ a ∈ as, a.Inside len) ↔
      isRead = true ∧ contents t name = none ∨
        offset.toNat ≤ blobSize ∧ offset.toNat + len.toNat < 2 ^ 64 ∧ len.toNat + 4095 < 2 ^ 64 ∧
          (offset.toNat ≠ 0 ∨ len.toNat ≠ 0) := by
  have hinside : (∀ a ∈ blobReadwrite offset (clamp offset len) isRead, a.Inside len) ↔ offset.toNat ≤ blobSize ∧
      offset.toNat + len.toNat < 2 ^ 64 ∧ len.toNat + 4095 < 2 ^ 64 ∧ (offset.toNat ≠ 0 ∨ len.toNat ≠ 0) :=
    ⟨le_of_inside, fun ⟨ho, hw, hl, hz⟩ => inside_of_le ho hw hl hz isRead⟩
  rw [← hinside]
  rcases contents_cases t name with ⟨c, r, ho⟩ | hc
  · rw [readwrite_opened ho, contents_opened ho]
    simp
  · rw [readwrite_create hc, hc]
    cases isRead <;> simp

/-- One block behind the end of the object: the length becomes
`2 ^ 64 - 512`, and the request is for `2 ^ 64 - 1` blocks from one that
the blob does not have. -/
theorem beyond_end_leaves_blob :
    readwrite ∅ (fun _ => 0) [1] 4194816 512 false =
        some ([.io false .buf 8193 18446744073709551615], fun _ => 0) ∧
      ¬(Access.io false .buf 8193 18446744073709551615).Inside 512 :=
  ⟨rfl, by decide⟩

end ObjectStore
end Fastblock.L2
