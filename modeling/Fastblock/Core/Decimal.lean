import Mathlib.Data.Nat.Digits.Lemmas

/-!
# Decimal numerals in names

The decimal numeral of a number as bytes, and when a concatenation that
contains one can be read back: a numeral behind a separator that is no digit
can, a numeral behind an arbitrary prefix cannot (`decimal_eq_append_iff`).
-/
namespace Fastblock.Core

/-- The digits of `n`, the highest first. -/
def numeral (n : Nat) : List Nat := if n = 0 then [0] else (Nat.digits 10 n).reverse

/-- The decimal numeral of `n` in ASCII. -/
def decimal (n : Nat) : List UInt8 := (numeral n).map fun d => UInt8.ofNat (48 + d)

def IsDigit (b : UInt8) : Prop := 48 ≤ b.toNat ∧ b.toNat ≤ 57

theorem numeral_of_pos {n : Nat} (h : 0 < n) : numeral n = (Nat.digits 10 n).reverse := if_neg (by omega)

theorem lt_of_mem_numeral {n d : Nat} (h : d ∈ numeral n) : d < 10 := by
  unfold numeral at h
  split at h
  · simp only [List.mem_singleton] at h
    omega
  · exact Nat.digits_lt_base (by decide) (List.mem_reverse.mp h)

theorem toNat_digit {d : Nat} (h : d < 10) : (UInt8.ofNat (48 + d)).toNat = 48 + d := by
  rw [UInt8.toNat_ofNat', Nat.mod_eq_of_lt (by omega)]

theorem isDigit_of_mem_decimal {n : Nat} {b : UInt8} (h : b ∈ decimal n) : IsDigit b := by
  obtain ⟨d, hd, rfl⟩ := List.mem_map.mp h
  have hlt := lt_of_mem_numeral hd
  rw [IsDigit, toNat_digit hlt]
  omega

/-- Bytes of digits determine the digits. -/
theorem digits_map_inj {l l' : List Nat} (h : ∀ d ∈ l, d < 10) (h' : ∀ d ∈ l', d < 10)
    (he : l.map (fun d => UInt8.ofNat (48 + d)) = l'.map fun d => UInt8.ofNat (48 + d)) : l = l' := by
  have hval : ∀ m : List Nat, (∀ d ∈ m, d < 10) →
      (m.map fun d => UInt8.ofNat (48 + d)).map (fun b => b.toNat - 48) = m := fun m hm => by
    rw [List.map_map]
    refine (List.map_congr_left fun d hd => ?_).trans (List.map_id m)
    rw [Function.comp_apply, toNat_digit (hm d hd), id, Nat.add_sub_cancel_left]
  rw [← hval l h, he, hval l' h']

theorem numeral_injective : Function.Injective numeral := by
  intro a b h
  have hz : ∀ {n : Nat}, 0 < n → numeral n ≠ [0] := fun {n} hn he => by
    rw [numeral_of_pos hn] at he
    have hd : Nat.digits 10 n = [0] := by simpa using congrArg List.reverse he
    have := Nat.ofDigits_digits 10 n
    rw [hd] at this
    simp at this
    omega
  rcases Nat.eq_zero_or_pos a with rfl | ha <;> rcases Nat.eq_zero_or_pos b with rfl | hb
  · rfl
  · exact absurd h.symm (hz hb)
  · exact absurd h (hz ha)
  · rw [numeral_of_pos ha, numeral_of_pos hb, List.reverse_inj] at h
    exact Nat.digits.injective 10 h

theorem decimal_injective : Function.Injective decimal := fun _ _ h =>
  numeral_injective (digits_map_inj (fun _ => lt_of_mem_numeral) (fun _ => lt_of_mem_numeral) h)

theorem numeral_ne_nil (n : Nat) : numeral n ≠ [] := by
  unfold numeral
  split
  · simp
  · next h => simpa using Nat.digits_ne_nil_iff_ne_zero.mpr h

theorem decimal_ne_nil (n : Nat) : decimal n ≠ [] := by
  simpa [decimal] using numeral_ne_nil n

theorem length_decimal_le {n m : Nat} (hm : 0 < m) (h : n < 10 ^ m) : (decimal n).length ≤ m := by
  rw [decimal, List.length_map]
  rcases Nat.eq_zero_or_pos n with rfl | hn
  · exact hm
  · rw [numeral_of_pos hn, List.length_reverse]
    exact (Nat.digits_length_le_iff (by decide) n).mpr h

/-- The value of a numeral. -/
theorem ofDigits_numeral (n : Nat) : Nat.ofDigits 10 (numeral n).reverse = n := by
  rcases Nat.eq_zero_or_pos n with rfl | hn
  · simp [numeral]
  · rw [numeral_of_pos hn, List.reverse_reverse, Nat.ofDigits_digits]

/-- The number that a numeral in ASCII stands for. -/
def ofDecimal (s : List UInt8) : Nat := Nat.ofDigits 10 (s.map fun b => b.toNat - 48).reverse

theorem ofDecimal_decimal (n : Nat) : ofDecimal (decimal n) = n := by
  have hval : (decimal n).map (fun b => b.toNat - 48) = numeral n := by
    rw [decimal, List.map_map]
    refine (List.map_congr_left fun d hd => ?_).trans (List.map_id _)
    rw [Function.comp_apply, toNat_digit (lt_of_mem_numeral hd), id, Nat.add_sub_cancel_left]
  rw [ofDecimal, hval, ofDigits_numeral]

/-- The decimal numeral of an integer, with a minus sign in front of a
negative one. -/
def signedDecimal (z : Int) : List UInt8 := if z < 0 then 45 :: decimal z.natAbs else decimal z.natAbs

def ofSignedDecimal (s : List UInt8) : Int := if s.head? = some 45 then -(ofDecimal s.tail) else ofDecimal s

theorem ofSignedDecimal_signedDecimal (z : Int) : ofSignedDecimal (signedDecimal z) = z := by
  unfold signedDecimal
  split
  · rw [ofSignedDecimal, List.head?_cons, if_pos rfl, List.tail_cons, ofDecimal_decimal]
    omega
  · have hhead : (decimal z.natAbs).head? ≠ some 45 := fun h => by
      have := isDigit_of_mem_decimal (List.mem_of_mem_head? h)
      simp [IsDigit] at this
    rw [ofSignedDecimal, if_neg hhead, ofDecimal_decimal]
    omega

/-- A numeral of two parts is one of which the first part is a numeral of a
positive number. -/
theorem numeral_eq_append_iff {i j : Nat} {ds : List Nat} (hds : ds ≠ []) :
    numeral i = ds ++ numeral j ↔ ∃ k, 0 < k ∧ ds = numeral k ∧ i = k * 10 ^ (numeral j).length + j := by
  constructor
  · intro h
    have hi : 0 < i := by
      rcases Nat.eq_zero_or_pos i with rfl | hi
      · have hl := congrArg List.length h
        have := List.length_pos_of_ne_nil hds
        have := List.length_pos_of_ne_nil (numeral_ne_nil j)
        simp only [numeral, if_true, List.length_append, List.length_singleton] at hl this
        omega
      · exact hi
    have hdig : Nat.digits 10 i = (numeral j).reverse ++ ds.reverse := by
      rw [numeral_of_pos hi] at h
      rw [← List.reverse_append, ← h, List.reverse_reverse]
    have hne : ds.reverse ≠ [] := by simpa using hds
    -- the highest digit of `i` is the highest digit of the first part
    have hlast : ds.reverse.getLast hne ≠ 0 := by
      have hz := Nat.getLast_digit_ne_zero 10 (Nat.pos_iff_ne_zero.mp hi)
      have : (Nat.digits 10 i).getLast (Nat.digits_ne_nil_iff_ne_zero.mpr (Nat.pos_iff_ne_zero.mp hi)) =
          ds.reverse.getLast hne := by
        simp only [hdig]
        exact List.getLast_append_of_ne_nil _ hne
      rwa [this] at hz
    have hlt : ∀ d ∈ ds.reverse, d < 10 := fun d hd =>
      Nat.digits_lt_base (by decide) (hdig ▸ List.mem_append_right _ hd)
    have hk := Nat.digits_ofDigits 10 (by decide) ds.reverse hlt fun h => hlast
    refine ⟨Nat.ofDigits 10 ds.reverse, ?_, ?_, ?_⟩
    · refine Nat.pos_of_ne_zero fun hz => hne ?_
      rw [hz] at hk
      simpa using hk.symm
    · rw [numeral_of_pos, hk, List.reverse_reverse]
      refine Nat.pos_of_ne_zero fun hz => hne ?_
      rw [hz] at hk
      simpa using hk.symm
    · have := Nat.ofDigits_digits 10 i
      rw [hdig, Nat.ofDigits_append, ofDigits_numeral, List.length_reverse] at this
      rw [← this, Nat.mul_comm, Nat.add_comm]
  · rintro ⟨k, hk, rfl, rfl⟩
    have hpos : 0 < k * 10 ^ (numeral j).length + j := by positivity
    have hne : Nat.digits 10 k ≠ [] := Nat.digits_ne_nil_iff_ne_zero.mpr (by omega)
    have hval : Nat.ofDigits 10 ((numeral j).reverse ++ Nat.digits 10 k) = k * 10 ^ (numeral j).length + j := by
      rw [Nat.ofDigits_append, ofDigits_numeral, Nat.ofDigits_digits, List.length_reverse, Nat.mul_comm, Nat.add_comm]
    have hdig := Nat.digits_ofDigits 10 (by decide) ((numeral j).reverse ++ Nat.digits 10 k)
      (fun d hd => (List.mem_append.mp hd).elim (fun h => lt_of_mem_numeral (List.mem_reverse.mp h))
        (Nat.digits_lt_base (by decide)))
      (fun h => by
        rw [List.getLast_append_of_ne_nil _ hne]
        exact Nat.getLast_digit_ne_zero 10 (by omega))
    rw [numeral_of_pos hpos, numeral_of_pos hk, ← hval, hdig, List.reverse_append, List.reverse_reverse]

theorem decimal_eq_append_iff {i j : Nat} {ds : List UInt8} (hds : ds ≠ []) :
    decimal i = ds ++ decimal j ↔ ∃ k, 0 < k ∧ ds = decimal k ∧ i = k * 10 ^ (decimal j).length + j := by
  have hlen : (decimal j).length = (numeral j).length := List.length_map _
  rw [hlen]
  constructor
  · intro h
    obtain ⟨l, l', hl, rfl, hl'⟩ := List.map_eq_append_iff.mp h
    have hj : l' = numeral j := digits_map_inj
      (fun d hd => lt_of_mem_numeral (hl ▸ List.mem_append_right l hd)) (fun _ => lt_of_mem_numeral) hl'
    obtain ⟨k, hk, rfl, hi⟩ := (numeral_eq_append_iff (by simpa using hds)).mp (hj ▸ hl)
    exact ⟨k, hk, rfl, hi⟩
  · rintro ⟨k, hk, rfl, hi⟩
    have := (numeral_eq_append_iff (numeral_ne_nil k)).mpr ⟨k, hk, rfl, hi⟩
    rw [decimal, this, List.map_append]
    rfl

/-- What stands before and behind the first byte that does not satisfy `P`
is determined. -/
theorem append_cons_inj {α : Type*} {P : α → Prop} {x : α} (hx : ¬P x) {a b : List α} (ha : ∀ y ∈ a, P y)
    (hb : ∀ y ∈ b, P y) {r s : List α} (h : a ++ x :: r = b ++ x :: s) : a = b ∧ r = s := by
  induction a generalizing b with
  | nil =>
    cases b with
    | nil => simpa using h
    | cons y b =>
      obtain ⟨rfl, -⟩ := List.cons.inj h
      exact absurd (hb x (List.mem_cons_self ..)) hx
  | cons y a ih =>
    cases b with
    | nil =>
      obtain ⟨rfl, -⟩ := List.cons.inj h
      exact absurd (ha y (List.mem_cons_self ..)) hx
    | cons z b =>
      obtain ⟨rfl, htail⟩ := List.cons.inj h
      obtain ⟨rfl, rfl⟩ := ih (fun w hw => ha w (List.mem_cons_of_mem y hw))
        (fun w hw => hb w (List.mem_cons_of_mem y hw)) htail
      exact ⟨rfl, rfl⟩

end Fastblock.Core
