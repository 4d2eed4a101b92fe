import Mathlib.Data.List.Basic
import Mathlib.Tactic.Ring

/-!
# Writers and readers of bytes

A writer appends bytes to a buffer of limited size and fails when they do
not fit; a reader takes a value off the front of a list of bytes.
`Writes w bs` and `Reads r bs a` say what the two do on the bytes `bs`;
both compose along `>>=` and over lists, so the round trip of a format is
proved piece by piece in the order of its fields.
-/
namespace Fastblock.Core

/-! ## Little endian integers -/

/-- The lowest `w` bytes of `v`, the lowest first. -/
def leBytes : Nat → Nat → List UInt8
  | 0, _ => []
  | w + 1, v => UInt8.ofNat v :: leBytes w (v / 256)

def ofLeBytes : List UInt8 → Nat
  | [] => 0
  | b :: bs => b.toNat + 256 * ofLeBytes bs

@[simp] theorem length_leBytes (w v : Nat) : (leBytes w v).length = w := by
  induction w generalizing v with
  | zero => rfl
  | succ w ih => rw [leBytes, List.length_cons, ih]

theorem ofLeBytes_leBytes (w v : Nat) : ofLeBytes (leBytes w v) = v % 256 ^ w := by
  induction w generalizing v with
  | zero => rw [leBytes, ofLeBytes, pow_zero, Nat.mod_one]
  | succ w ih =>
    rw [leBytes, ofLeBytes, ih, UInt8.toNat_ofNat', pow_succ' 256 w, Nat.mod_mul]

theorem ofLeBytes_leBytes_of_lt {w v : Nat} (h : v < 256 ^ w) : ofLeBytes (leBytes w v) = v := by
  rw [ofLeBytes_leBytes, Nat.mod_eq_of_lt h]

theorem leBytes_ofLeBytes (bs : List UInt8) : leBytes bs.length (ofLeBytes bs) = bs := by
  induction bs with
  | nil => rfl
  | cons b bs ih =>
    have hb := b.toNat_lt
    have hdiv : (b.toNat + 256 * ofLeBytes bs) / 256 = ofLeBytes bs := by omega
    have hhead : UInt8.ofNat (b.toNat + 256 * ofLeBytes bs) = b := by
      apply UInt8.toNat_inj.mp
      rw [UInt8.toNat_ofNat']
      omega
    rw [List.length_cons, ofLeBytes, leBytes, hdiv, ih, hhead]

/-- A string: its length in eight bytes, then its bytes. -/
def stringBytes (s : List UInt8) : List UInt8 := leBytes 8 s.length ++ s

theorem length_stringBytes (s : List UInt8) : (stringBytes s).length = 8 + s.length := by
  rw [stringBytes, List.length_append, length_leBytes]

/-- The sum of the bytes; it does not depend on their order. -/
def byteSum (bs : List UInt8) : Nat := (bs.map UInt8.toNat).sum

@[simp] theorem byteSum_append (bs bs' : List UInt8) : byteSum (bs ++ bs') = byteSum bs + byteSum bs' := by
  rw [byteSum, List.map_append, List.sum_append]
  rfl

theorem byteSum_replicate (n : Nat) (b : UInt8) : byteSum (List.replicate n b) = n * b.toNat := by
  simp [byteSum]

theorem byteSum_le (bs : List UInt8) : byteSum bs ≤ 255 * bs.length := by
  induction bs with
  | nil => exact Nat.zero_le _
  | cons b bs ih =>
    have hb := b.toNat_lt
    change b.toNat + byteSum bs ≤ 255 * (bs.length + 1)
    omega

/-! ## Writers -/

/-- The bytes written so far; `none` is a failure. -/
abbrev Writer := StateT (List UInt8) Option Unit

/-- `bs` is appended if the buffer of `cap` bytes has room for all of it. -/
def Writer.put (cap : Nat) (bs : List UInt8) : Writer := fun buf =>
  if buf.length + bs.length ≤ cap then some ((), buf ++ bs) else none

/-- In a buffer of `cap` bytes, `w` appends `bs` or fails for want of
room. -/
def Writes (cap : Nat) (w : Writer) (bs : List UInt8) : Prop :=
  ∀ buf : List UInt8, buf.length ≤ cap →
    w.run buf = if buf.length + bs.length ≤ cap then some ((), buf ++ bs) else none

section

variable {cap : Nat}

theorem Writes.put (bs : List UInt8) : Writes cap (Writer.put cap bs) bs := fun _ _ => rfl

theorem Writes.pure : Writes cap (Pure.pure ()) [] := fun buf h => by
  rw [List.append_nil, List.length_nil, Nat.add_zero, if_pos h]
  rfl

theorem Writes.bind {w w' : Writer} {bs bs' : List UInt8} (h : Writes cap w bs) (h' : Writes cap w' bs') :
    Writes cap (w >>= fun _ => w') (bs ++ bs') := fun buf hbuf => by
  rw [StateT.run_bind, h buf hbuf]
  by_cases hfit : buf.length + bs.length ≤ cap
  · rw [if_pos hfit]
    have := h' (buf ++ bs) (by rwa [List.length_append])
    simp only [Option.bind_eq_bind, Option.bind_some]
    rw [this, List.length_append, List.length_append, Nat.add_assoc, List.append_assoc]
  · rw [if_neg hfit, if_neg fun h => hfit (by rw [List.length_append] at h; omega)]
    rfl

theorem Writes.forM {α : Type} {f : α → Writer} {g : α → List UInt8} (h : ∀ a, Writes cap (f a) (g a)) (as : List α) :
    Writes cap (as.forM f) (as.flatMap g) := by
  induction as with
  | nil => exact .pure
  | cons a as ih => exact (h a).bind ih

/-- A writer on an empty buffer. -/
theorem Writes.run_nil {w : Writer} {bs : List UInt8} (h : Writes cap w bs) :
    w.run [] = if bs.length ≤ cap then some ((), bs) else none := by
  rw [h [] (Nat.zero_le _), List.length_nil, Nat.zero_add, List.nil_append]

end

/-! ## Readers -/

abbrev Reader (α : Type) := StateT (List UInt8) Option α

/-- `r` takes the value `a` off the bytes `bs`, whatever follows them. -/
def Reads {α : Type} (r : Reader α) (bs : List UInt8) (a : α) : Prop :=
  ∀ rest : List UInt8, r.run (bs ++ rest) = some (a, rest)

/-- The first `n` bytes. -/
def Reader.take (n : Nat) : Reader (List UInt8) := fun bs =>
  if bs.length < n then none else some (bs.take n, bs.drop n)

/-- A little endian integer of `w` bytes. -/
def Reader.le (w : Nat) : Reader Nat := do
  let bs ← Reader.take w
  Pure.pure (ofLeBytes bs)

def Reader.u8 : Reader UInt8 := do return UInt8.ofNat (← Reader.le 1)
def Reader.u16 : Reader UInt16 := do return UInt16.ofNat (← Reader.le 2)
def Reader.u32 : Reader UInt32 := do return UInt32.ofNat (← Reader.le 4)
def Reader.u64 : Reader UInt64 := do return UInt64.ofNat (← Reader.le 8)

/-- `n` values, one after the other. -/
def Reader.times {α : Type} (r : Reader α) : Nat → Reader (List α)
  | 0 => Pure.pure []
  | n + 1 => do
    let a ← r
    let as ← r.times n
    Pure.pure (a :: as)

section

variable {α β : Type}

theorem Reads.take (bs : List UInt8) : Reads (Reader.take bs.length) bs bs := fun rest => by
  change (if (bs ++ rest).length < bs.length then none else some _) = _
  rw [if_neg (by rw [List.length_append]; omega), List.take_left, List.drop_left]

theorem Reads.pure (a : α) : Reads (Pure.pure a) [] a := fun _ => rfl

theorem Reads.bind {r : Reader α} {f : α → Reader β} {bs bs' : List UInt8} {a : α} {b : β} (h : Reads r bs a)
    (h' : Reads (f a) bs' b) : Reads (r >>= f) (bs ++ bs') b := fun rest => by
  rw [StateT.run_bind, List.append_assoc, h]
  exact h' rest

theorem Reads.map {r : Reader α} {f : α → β} {bs : List UInt8} {a : α} (h : Reads r bs a) :
    Reads (r >>= fun a => Pure.pure (f a)) bs (f a) := by
  have := h.bind (f := fun a => Pure.pure (f a)) (.pure (f a))
  rwa [List.append_nil] at this

theorem Reads.le {w v : Nat} (h : v < 256 ^ w) : Reads (Reader.le w) (leBytes w v) v := by
  have := (Reads.take (leBytes w v)).map (f := ofLeBytes)
  rwa [length_leBytes, ofLeBytes_leBytes_of_lt h] at this

theorem Reads.u8 (v : UInt8) : Reads Reader.u8 (leBytes 1 v.toNat) v := by
  have := (Reads.le (w := 1) v.toNat_lt).map (f := UInt8.ofNat)
  rwa [UInt8.ofNat_toNat] at this

theorem Reads.u16 (v : UInt16) : Reads Reader.u16 (leBytes 2 v.toNat) v := by
  have := (Reads.le (w := 2) v.toNat_lt).map (f := UInt16.ofNat)
  rwa [UInt16.ofNat_toNat] at this

theorem Reads.u32 (v : UInt32) : Reads Reader.u32 (leBytes 4 v.toNat) v := by
  have := (Reads.le (w := 4) v.toNat_lt).map (f := UInt32.ofNat)
  rwa [UInt32.ofNat_toNat] at this

theorem Reads.u64 (v : UInt64) : Reads Reader.u64 (leBytes 8 v.toNat) v := by
  have := (Reads.le (w := 8) v.toNat_lt).map (f := UInt64.ofNat)
  rwa [UInt64.ofNat_toNat] at this

theorem Reads.times {r : Reader α} {g : α → List UInt8} {as : List α} (h : ∀ a ∈ as, Reads r (g a) a) :
    Reads (r.times as.length) (as.flatMap g) as := by
  induction as with
  | nil => exact .pure []
  | cons a as ih =>
    have ih := ih fun x hx => h x (List.mem_cons_of_mem _ hx)
    exact (h a List.mem_cons_self).bind ih.map

/-- What is read was there. -/
theorem Reader.eq_of_take {n : Nat} {bs a rest : List UInt8} (h : (Reader.take n).run bs = some (a, rest)) :
    a.length = n ∧ bs = a ++ rest := by
  change (if bs.length < n then none else some (bs.take n, bs.drop n)) = _ at h
  split at h
  · cases h
  · next hn =>
    cases h
    exact ⟨List.length_take_of_le (Nat.not_lt.mp hn), (List.take_append_drop ..).symm⟩

theorem Reader.eq_of_le {w v : Nat} {bs rest : List UInt8} (h : (Reader.le w).run bs = some (v, rest)) :
    bs = leBytes w v ++ rest := by
  rw [Reader.le, StateT.run_bind] at h
  obtain ⟨⟨le, _⟩, htake, hpure⟩ := Option.bind_eq_some_iff.mp h
  cases hpure
  obtain ⟨rfl, hbs⟩ := Reader.eq_of_take htake
  rwa [leBytes_ofLeBytes]

/-- A reader on exactly the bytes it takes. -/
theorem Reads.run_self {r : Reader α} {bs : List UInt8} {a : α} (h : Reads r bs a) : r.run bs = some (a, []) := by
  simpa using h []

end
end Fastblock.Core
