import Fastblock.L1Blob.SpdkBuffer
import Fastblock.L2Store.KvTable

/-!
# Batches of operations

A commit of the kv store (src/localstore/kv_store.h:232-274) writes the
operations since the last one as a batch: the size of the whole, the
number of the operations, and of each its key and its value. A removal is
written as the empty value, and every empty value is read as a removal
(src/localstore/types.h:583-631).

A value that does not fit the buffer of 32 MiB is left out and its
operation is not. A batch that fits is read back up to the empty values
(`deserializeOp_serializeOp`).
-/
namespace Fastblock.L2.Kv

open Fastblock.Core Fastblock.L1

/-- `struct op` -/
structure Op where
  key : Str
  value : Option Str
  deriving DecidableEq, Repr

/-- mirrors kv_store.h:155-170 -/
def applyOp (t : Table) (op : Op) : Table :=
  if op.key ∈ t then
    match op.value with
    | some value => t.insert op.key value
    | none => t.erase op.key
  else
    match op.value with
    | some value => t.insert op.key value
    | none => t

def lengthOptString : Option Str → Nat
  | some value => 8 + value.length
  | none => 8

/-- What `put` and `remove` add to `op_length`. -/
def Op.length (op : Op) : Nat := lengthString op.key + lengthOptString op.value

def opsLength (ops : List Op) : Nat := (ops.map Op.length).sum

/-! ## Writing -/

/-- `write_buf` and `read_buf` -/
def bufSize : Nat := 32 * 2 ^ 20

/-- A writer whose result is not looked at. -/
def attempt (w : Writer) (buf : List UInt8) : List UInt8 := ((w.run buf).map (·.2)).getD buf

/-- mirrors types.h:624-631 -/
def putOptString (value : Option Str) : Writer := putString bufSize (value.getD [])

/-- mirrors kv_store.h:243-247 -/
def putOp (buf : List UInt8) (op : Op) : List UInt8 :=
  attempt (putOptString op.value) (attempt (putString bufSize op.key) buf)

/-- mirrors kv_store.h:232-251: the bytes that are used of `write_buf`. -/
def serializeOp (ops : List Op) : List UInt8 :=
  let buf := List.replicate 8 0
  let buf := attempt (putFixed64 bufSize ops.length) buf
  let buf := ops.foldl putOp buf
  leBytes 8 buf.length ++ buf.drop 8

/-- `SPDK_ALIGN_CEIL(size, 4096)` -/
def alignCeil (size : Nat) : Nat := (size + 4095) / 4096 * 4096

/-- What `commit` appends, kv_store.h:196-200; `stale` is what `write_buf`
held before. -/
def batchBuf (stale : Nat → UInt8) (ops : List Op) : Buf :=
  ⟨alignCeil (serializeOp ops).length, fun i => (serializeOp ops).getD i (stale i)⟩

theorem dvd_alignCeil (size : Nat) : 4096 ∣ alignCeil size := Nat.dvd_mul_left ..

theorem le_alignCeil (size : Nat) : size ≤ alignCeil size := by
  unfold alignCeil
  omega

theorem alignCeil_le_iff {size room : Nat} (h : 4096 ∣ room) : alignCeil size ≤ room ↔ size ≤ room := by
  unfold alignCeil
  omega

/-! ## Reading -/

/-- The value after `GetString`, or what it was before. -/
def getOr {α : Type} (r : Reader α) (old : α) (buf : List UInt8) : α × List UInt8 := (r.run buf).getD (old, buf)

/-- mirrors types.h:583-596 -/
def getOptString : Reader (Option Str) := do
  let str ← getString
  pure (if str.isEmpty then none else some str)

/-- mirrors kv_store.h:267-271 for the number of operations that are left:
an operation takes what is in `key` and `value`, and leaves empty strings
there. -/
def getOps : Nat → Str → Option Str → List UInt8 → List Op
  | 0, _, _, _ => []
  | n + 1, key, value, buf =>
    let (key, buf) := getOr getString key buf
    let (value, buf) := getOr getOptString value buf
    ⟨key, value⟩ :: getOps n [] (value.map fun _ => []) buf

/-- mirrors kv_store.h:253-274 on the bytes of `read_buf` -/
def deserializeOp (buf : List UInt8) : List Op :=
  let (dataSize, buf) := getOr getFixed64 0 buf
  let (opSize, buf) := getOr getFixed64 0 buf
  if dataSize = 0 || opSize = 0 then [] else getOps opSize [] none buf

/-- An operation as it is read: without a value, if that is empty. -/
def Op.stored (op : Op) : Op := { op with value := op.value.filter fun v => !v.isEmpty }

/-! ## Tables -/

theorem lookup_applyOp (t : Table) (op : Op) (k : Str) :
    (applyOp t op).lookup k = if op.key = k then op.value else t.lookup k := by
  have hinsert : ∀ v, (t.insert op.key v).lookup k = if op.key = k then some v else t.lookup k := fun v => by
    split
    · next h => rw [← h, Finmap.lookup_insert]
    · next h => rw [Finmap.lookup_insert_of_ne _ (Ne.symm h)]
  unfold applyOp
  cases op.value with
  | some v =>
    rw [← hinsert]
    split <;> rfl
  | none =>
    dsimp only
    split
    · split
      · next h => rw [← h, Finmap.lookup_erase]
      · next h => rw [Finmap.lookup_erase_ne (Ne.symm h)]
    · next hmem =>
      split
      · next h => rw [← h, Finmap.lookup_eq_none.mpr hmem]
      · rfl

/-- The last operation on a key decides. -/
theorem lookup_foldl_applyOp (t : Table) (ops : List Op) (k : Str) :
    (ops.foldl applyOp t).lookup k = ((ops.reverse.find? (·.key = k)).map (·.value)).getD (t.lookup k) := by
  induction ops generalizing t with
  | nil => rfl
  | cons op ops ih =>
    rw [List.foldl_cons, ih, List.reverse_cons, List.find?_append, lookup_applyOp]
    cases ops.reverse.find? (·.key = k) with
    | some x => rfl
    | none =>
      by_cases h : op.key = k
      · simp [h]
      · simp [h]

/-! ## Round trip -/

theorem attempt_put (bs buf : List UInt8) :
    attempt (Writer.put bufSize bs) buf = if buf.length + bs.length ≤ bufSize then buf ++ bs else buf := by
  have hrun : (Writer.put bufSize bs).run buf =
      if buf.length + bs.length ≤ bufSize then some ((), buf ++ bs) else none := rfl
  rw [attempt, hrun]
  split <;> rfl

theorem attempt_putString (s : Str) (buf : List UInt8) : attempt (putString bufSize s) buf =
    if buf.length + (stringBytes s).length ≤ bufSize then buf ++ stringBytes s else buf :=
  attempt_put ..

/-- The bytes of an operation. -/
def opBytes (op : Op) : List UInt8 := stringBytes op.key ++ stringBytes (op.value.getD [])

theorem length_opBytes (op : Op) : (opBytes op).length = op.length := by
  have hopt : lengthOptString op.value = 8 + (op.value.getD []).length := by
    cases op.value <;> rfl
  simp [opBytes, stringBytes, Op.length, lengthString, hopt, Nat.add_assoc]

@[simp] theorem opsLength_cons (op : Op) (ops : List Op) : opsLength (op :: ops) = op.length + opsLength ops := by
  simp [opsLength]

@[simp] theorem opsLength_append (ops ops' : List Op) : opsLength (ops ++ ops') = opsLength ops + opsLength ops' := by
  simp [opsLength]

theorem length_le_opsLength (ops : List Op) : ops.length ≤ opsLength ops := by
  induction ops with
  | nil => exact Nat.le_refl 0
  | cons op ops ih =>
    rw [opsLength_cons, Op.length, lengthString, List.length_cons]
    omega

theorem length_flatMap_opBytes (ops : List Op) : (ops.flatMap opBytes).length = opsLength ops := by
  induction ops with
  | nil => rfl
  | cons op ops ih => rw [List.flatMap_cons, List.length_append, ih, length_opBytes, opsLength_cons]

theorem putOp_of_le {buf : List UInt8} {op : Op} (h : buf.length + op.length ≤ bufSize) :
    putOp buf op = buf ++ opBytes op := by
  rw [← length_opBytes, opBytes, List.length_append] at h
  rw [putOp, putOptString, attempt_putString op.key, if_pos (by omega), attempt_putString,
    if_pos (by rw [List.length_append]; omega), List.append_assoc, opBytes]

theorem length_putOp_le (buf : List UInt8) (op : Op) :
    buf.length ≤ (putOp buf op).length ∧ (putOp buf op).length ≤ buf.length + op.length := by
  have hone : ∀ (s : Str) (b : List UInt8), b.length ≤ (attempt (putString bufSize s) b).length ∧
      (attempt (putString bufSize s) b).length ≤ b.length + (stringBytes s).length := fun s b => by
    rw [attempt_putString]
    split
    · rw [List.length_append]
      exact ⟨Nat.le_add_right _ _, Nat.le_refl _⟩
    · exact ⟨Nat.le_refl _, Nat.le_add_right _ _⟩
  have h₁ := hone op.key buf
  have h₂ := hone (op.value.getD []) (attempt (putString bufSize op.key) buf)
  rw [← length_opBytes, opBytes, List.length_append, putOp, putOptString]
  omega

theorem foldl_putOp_of_le {ops : List Op} {buf : List UInt8} (h : buf.length + opsLength ops ≤ bufSize) :
    ops.foldl putOp buf = buf ++ ops.flatMap opBytes := by
  induction ops generalizing buf with
  | nil => exact (List.append_nil buf).symm
  | cons op ops ih =>
    rw [opsLength_cons] at h
    rw [List.foldl_cons, putOp_of_le (by omega), ih (by rw [List.length_append, length_opBytes]; omega),
      List.flatMap_cons, List.append_assoc]

theorem length_foldl_putOp_le (ops : List Op) (buf : List UInt8) :
    buf.length ≤ (ops.foldl putOp buf).length ∧ (ops.foldl putOp buf).length ≤ buf.length + opsLength ops := by
  induction ops generalizing buf with
  | nil => exact ⟨Nat.le_refl _, Nat.le_refl _⟩
  | cons op ops ih =>
    have h₁ := length_putOp_le buf op
    have h₂ := ih (putOp buf op)
    rw [List.foldl_cons, opsLength_cons]
    omega

/-- The number of the operations behind the place for the size. -/
theorem attempt_putFixed64 (n : Nat) :
    attempt (putFixed64 bufSize n) (List.replicate 8 0) = List.replicate 8 0 ++ leBytes 8 n := by
  rw [putFixed64, attempt_put, if_pos (by simp [bufSize])]

/-- A batch is never longer than its operations and the header. -/
theorem length_serializeOp (ops : List Op) :
    16 ≤ (serializeOp ops).length ∧ (serializeOp ops).length ≤ 16 + opsLength ops := by
  have h := length_foldl_putOp_le ops (List.replicate 8 0 ++ leBytes 8 ops.length)
  rw [serializeOp, attempt_putFixed64]
  simp only [List.length_append, List.length_replicate, length_leBytes, List.length_drop] at h ⊢
  omega

/-- A batch is never longer than the buffer. -/
theorem length_serializeOp_le (ops : List Op) : (serializeOp ops).length ≤ bufSize := by
  have hput : ∀ (s : Str) {b : List UInt8}, b.length ≤ bufSize →
      (attempt (putString bufSize s) b).length ≤ bufSize := by
    intro s b hb
    rw [attempt_putString]
    split
    · next h => rwa [List.length_append]
    · exact hb
  have hops : ∀ (ops : List Op) {b : List UInt8}, b.length ≤ bufSize → (ops.foldl putOp b).length ≤ bufSize := by
    intro ops
    induction ops with
    | nil => exact id
    | cons op ops ih => exact fun hb => ih (hput _ (hput _ hb))
  have h := hops ops (b := List.replicate 8 0 ++ leBytes 8 ops.length) (by
    rw [List.length_append, List.length_replicate, length_leBytes]
    decide)
  have h16 := length_foldl_putOp_le ops (List.replicate 8 0 ++ leBytes 8 ops.length)
  rw [serializeOp, attempt_putFixed64]
  simp only [List.length_append, List.length_replicate, length_leBytes, List.length_drop] at h h16 ⊢
  omega

/-- A batch that fits the buffer. -/
theorem serializeOp_of_le {ops : List Op} (h : 16 + opsLength ops ≤ bufSize) :
    serializeOp ops = leBytes 8 (16 + opsLength ops) ++ (leBytes 8 ops.length ++ ops.flatMap opBytes) := by
  have hlen : (List.replicate 8 (0 : UInt8) ++ leBytes 8 ops.length).length = 16 := by simp
  rw [serializeOp, attempt_putFixed64, foldl_putOp_of_le (by rw [hlen]; exact h), List.length_append, hlen,
    length_flatMap_opBytes, List.append_assoc, List.drop_left' (List.length_replicate ..)]

theorem getOr_of_reads {α : Type} {r : Reader α} {bs : List UInt8} {a : α} (h : Reads r bs a) (old : α)
    (rest : List UInt8) : getOr r old (bs ++ rest) = (a, rest) := by
  rw [getOr, h rest]
  rfl

theorem reads_getOptString {value : Option Str} (h : (value.getD []).length < 2 ^ 64) :
    Reads getOptString (stringBytes (value.getD [])) (value.filter fun v => !v.isEmpty) := by
  have hread := (reads_getString h).map (f := fun str => if str.isEmpty then none else some str)
  have hvalue : (if (value.getD []).isEmpty then none else some (value.getD [])) =
      value.filter fun v => !v.isEmpty := by
    cases value with
    | none => rfl
    | some v => cases v <;> rfl
  rw [hvalue] at hread
  exact hread

theorem getOps_flatMap {ops : List Op} (h : opsLength ops < 2 ^ 64) (key : Str) (value : Option Str)
    (rest : List UInt8) : getOps ops.length key value (ops.flatMap opBytes ++ rest) = ops.map Op.stored := by
  induction ops generalizing key value with
  | nil => rfl
  | cons op ops ih =>
    rw [opsLength_cons] at h
    have hlen := length_opBytes op
    rw [opBytes, List.length_append, stringBytes, stringBytes, List.length_append,
      List.length_append] at hlen
    have hkey : ∀ bs, getOr getString key (stringBytes op.key ++ bs) = (op.key, bs) :=
      getOr_of_reads (reads_getString (by omega)) key
    have hvalue : ∀ bs, getOr getOptString value (stringBytes (op.value.getD []) ++ bs) =
        (op.stored.value, bs) := getOr_of_reads (reads_getOptString (by omega)) value
    rw [List.length_cons, getOps, List.flatMap_cons, opBytes, List.append_assoc, List.append_assoc, hkey]
    dsimp only
    rw [hvalue]
    exact congrArg (op.stored :: ·) (ih (by omega) _ _)

/-- A batch that fits is read back, an empty value as a removal, whatever
follows it. -/
theorem deserializeOp_serializeOp {ops : List Op} (h : 16 + opsLength ops ≤ bufSize) (rest : List UInt8) :
    deserializeOp (serializeOp ops ++ rest) = ops.map Op.stored := by
  have hcap : bufSize < 2 ^ 64 := by decide
  have hcount := length_le_opsLength ops
  have hsize : ∀ bs, getOr getFixed64 0 (leBytes 8 (16 + opsLength ops) ++ bs) = (16 + opsLength ops, bs) :=
    getOr_of_reads (reads_getFixed64 (by omega)) 0
  have hnum : ∀ bs, getOr getFixed64 0 (leBytes 8 ops.length ++ bs) = (ops.length, bs) :=
    getOr_of_reads (reads_getFixed64 (by omega)) 0
  rw [serializeOp_of_le h, deserializeOp, List.append_assoc, hsize, List.append_assoc]
  dsimp only
  rw [hnum]
  dsimp only
  cases ops with
  | nil => rfl
  | cons op ops =>
    rw [if_neg (by simp)]
    exact getOps_flatMap (by omega) [] none rest

end Fastblock.L2.Kv
