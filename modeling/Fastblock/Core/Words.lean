import Mathlib.Data.Nat.Bitwise

/-!
# Bits of machine words

A mask that clears the low bits of a word rounds it down to a multiple of a
power of two.
-/
namespace Fastblock.Core

theorem and_not_low_toNat (x : UInt64) {k : Nat} (hk : k < 64) :
    (x &&& ~~~(UInt64.ofNat (2 ^ k) - 1)).toNat = x.toNat / 2 ^ k * 2 ^ k := by
  have hx : x.toNat < 2 ^ 64 := x.toNat_lt
  have hpos : 0 < 2 ^ k := Nat.two_pow_pos k
  have hlt : 2 ^ k < 2 ^ 64 := Nat.pow_lt_pow_right (by decide) hk
  have hk' : (UInt64.ofNat (2 ^ k)).toNat = 2 ^ k := UInt64.toNat_ofNat_of_lt' hlt
  have hlow : (UInt64.ofNat (2 ^ k) - 1).toNat = 2 ^ k - 1 := by
    rw [UInt64.toNat_sub_of_le _ _ (UInt64.le_iff_toNat_le.mpr (by rw [hk']; exact hpos)), hk', UInt64.toNat_one]
  have hmask : (~~~(UInt64.ofNat (2 ^ k) - 1)).toNat = (2 ^ (64 - k) - 1) * 2 ^ k := by
    rw [UInt64.toNat_not, hlow, Nat.sub_mul, ← Nat.pow_add, Nat.sub_add_cancel hk.le, Nat.one_mul]
    simp only [UInt64.size]
    omega
  rw [UInt64.toNat_and, hmask]
  refine Nat.eq_of_testBit_eq fun i => ?_
  rw [Nat.testBit_and, Nat.testBit_mul_two_pow, Nat.testBit_mul_two_pow, Nat.testBit_div_two_pow,
    Nat.testBit_two_pow_sub_one]
  by_cases hi : k ≤ i
  · by_cases hw : i < 64
    · have : i - k < 64 - k := by omega
      simp [hi, this]
    · have : x.toNat.testBit i = false :=
        Nat.testBit_lt_two_pow (Nat.lt_of_lt_of_le hx (Nat.pow_le_pow_right (by decide) (by omega)))
      simp [this, hi]
  · simp [hi]

end Fastblock.Core
