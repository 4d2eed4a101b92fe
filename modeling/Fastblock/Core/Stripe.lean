import Mathlib.Logic.Function.Basic

/-!
# Ranges of bytes over objects

A device whose bytes lie in objects: `addr` gives the object and the place
in it of each byte of a range, and a request on the range is cut into
pieces of consecutive bytes of one object. `Tiles addr r n ps` says that
the pieces `ps` cover the bytes `r, …, n - 1` of the range once and in
order, at the places `addr` gives them. From it follow where a byte is
found (`Tiles.locate_eq`) and what a write of the pieces does to the
objects (`Tiles.put_addr`, `Tiles.put_of_not_mem`).
-/
namespace Fastblock.Core

/-- `len` bytes from byte `pos` of the request, which lie from byte
`place` on in object `key`. -/
structure Piece (α : Type*) where
  key : α
  place : Nat
  pos : Nat
  len : Nat

variable {α β : Type*}

/-- The place of byte `r` of the request. -/
def locate (ps : List (Piece α)) (r : Nat) : Option (α × Nat) :=
  (ps.find? fun p => p.pos ≤ r && r < p.pos + p.len).map fun p => (p.key, p.place + (r - p.pos))

/-- Byte `r` of the request, read from the objects. -/
def fetch (m : α → Nat → β) (ps : List (Piece α)) (r : Nat) : Option β := (locate ps r).map fun a => m a.1 a.2

/-- Store the bytes `f` of the request in the objects. -/
def put [DecidableEq α] (m : α → Nat → β) (ps : List (Piece α)) (f : Nat → β) : α → Nat → β :=
  ps.foldl (fun m p a o =>
    if a = p.key ∧ p.place ≤ o ∧ o < p.place + p.len then f (p.pos + (o - p.place)) else m a o) m

inductive Tiles (addr : Nat → α × Nat) : Nat → Nat → List (Piece α) → Prop
  | nil (n : Nat) : Tiles addr n n []
  | cons {r n : Nat} {p : Piece α} {ps : List (Piece α)} (hpos : p.pos = r)
      (haddr : ∀ k < p.len, addr (r + k) = (p.key, p.place + k)) (hps : Tiles addr (r + p.len) n ps) :
      Tiles addr r n (p :: ps)

variable {addr : Nat → α × Nat} {r n k : Nat} {ps : List (Piece α)}

theorem Tiles.le (h : Tiles addr r n ps) : r ≤ n := by
  induction h with
  | nil => exact Nat.le_refl _
  | cons _ _ _ ih => omega

theorem Tiles.locate_eq (h : Tiles addr r n ps) (hk : r ≤ k) (hn : k < n) : locate ps k = some (addr k) := by
  induction h with
  | nil => omega
  | @cons r n p ps hpos haddr hps ih =>
    rcases Nat.lt_or_ge k (r + p.len) with hlt | hge
    · have hin : (decide (p.pos ≤ k) && decide (k < p.pos + p.len)) = true := by simp [hpos, hk, hlt]
      have hk' : r + (k - p.pos) = k := by omega
      simp only [locate, List.find?_cons, hin]
      rw [Option.map_some, ← haddr (k - p.pos) (by omega), hk']
    · have hout : (decide (p.pos ≤ k) && decide (k < p.pos + p.len)) = false := by
        simp only [Bool.and_eq_false_iff, decide_eq_false_iff_not]
        omega
      simp only [locate, List.find?_cons, hout]
      exact ih hge hn

section Put

variable [DecidableEq α] {m : α → Nat → β} {f : Nat → β}

/-- A byte where the range has no byte keeps its value. -/
theorem Tiles.put_of_not_mem (h : Tiles addr r n ps) {a : α} {o : Nat}
    (ha : ∀ k, r ≤ k → k < n → addr k ≠ (a, o)) : put m ps f a o = m a o := by
  induction h generalizing m with
  | nil => rfl
  | @cons r n p ps hpos haddr hps ih =>
    have hle := hps.le
    rw [put, List.foldl_cons]
    refine (ih fun k hk hn => ha k (by omega) hn).trans (if_neg ?_)
    rintro ⟨rfl, hlo, hhi⟩
    refine ha (r + (o - p.place)) (by omega) (by omega) ?_
    rw [haddr _ (by omega), Nat.add_sub_cancel' hlo]

/-- A byte of the range has the value written. -/
theorem Tiles.put_addr (h : Tiles addr r n ps)
    (hinj : ∀ i j, r ≤ i → i < n → r ≤ j → j < n → addr i = addr j → i = j) (hk : r ≤ k) (hn : k < n) :
    put m ps f (addr k).1 (addr k).2 = f k := by
  induction h generalizing m with
  | nil => omega
  | @cons r n p ps hpos haddr hps ih =>
    rw [put, List.foldl_cons]
    rcases Nat.lt_or_ge k (r + p.len) with hlt | hge
    · -- the byte lies in the first piece, and no later piece holds its place
      refine (hps.put_of_not_mem fun j hj hjn he => ?_).trans ?_
      · have := hinj j k (by omega) hjn hk hn he
        omega
      · obtain ⟨d, rfl⟩ := Nat.exists_eq_add_of_le hk
        rw [haddr d (by omega), if_pos ⟨rfl, by omega, by omega⟩, Nat.add_sub_cancel_left, hpos]
    · exact ih (fun i j hi hin hj hjn he => hinj i j (by omega) hin (by omega) hjn he) hge hn

/-- A read of other pieces finds what was written in the same place. -/
theorem Tiles.fetch_put {addr' : Nat → α × Nat} {r' n' k' : Nat} {ps' : List (Piece α)} (h : Tiles addr r n ps)
    (h' : Tiles addr' r' n' ps') (hinj : ∀ i j, r ≤ i → i < n → r ≤ j → j < n → addr i = addr j → i = j)
    (hk : r ≤ k) (hn : k < n) (hk' : r' ≤ k') (hn' : k' < n') (he : addr k = addr' k') :
    fetch (put m ps f) ps' k' = some (f k) := by
  rw [fetch, h'.locate_eq hk' hn', Option.map_some, ← he, h.put_addr hinj hk hn]

end Put

/-! ## Objects of one size -/

/-- The place of byte `k` of a range that starts at byte `off` of a device
with objects of `size` bytes. -/
def stripe (name : Nat → α) (size off k : Nat) : α × Nat := (name ((off + k) / size), (off + k) % size)

theorem stripe_add {name : Nat → α} {size off k j : Nat} (h : (off + k) % size + j < size) :
    stripe name size off (k + j) = (name ((off + k) / size), (off + k) % size + j) := by
  have hdm := Nat.div_add_mod (off + k) size
  have he : off + (k + j) = ((off + k) % size + j) + size * ((off + k) / size) := by omega
  rw [stripe, he, Nat.add_mul_div_left _ _ (by omega), Nat.add_mul_mod_self_left, Nat.div_eq_of_lt h,
    Nat.mod_eq_of_lt h, Nat.zero_add]

/-- Behind the last byte of an object the next object starts. -/
theorem next_object {size x len : Nat} (h : x % size + len = size) (hs : 0 < size) :
    (x + len) / size = x / size + 1 ∧ (x + len) % size = 0 := by
  have hdm := Nat.div_add_mod x size
  have he : x + len = size * (x / size + 1) := by
    rw [Nat.mul_add]
    omega
  rw [he]
  exact ⟨Nat.mul_div_cancel_left _ hs, Nat.mul_mod_right _ _⟩

end Fastblock.Core
