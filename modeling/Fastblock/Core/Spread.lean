import Mathlib.Algebra.Order.Ring.Int

/-!
# Loads

The difference between the largest and the least of some numbers, and what
one unit that moves from a largest number to another one does to it: the
difference grows exactly if the other number was a largest one too
(`spread_move_le_iff`).
-/
namespace Fastblock.Core

/-- The difference between the largest and the least number. -/
def spread (l : List Int) : Int := l.max?.getD 0 - l.min?.getD 0

variable {l : List Int}

theorem exists_spread (hne : l ≠ []) :
    ∃ x ∈ l, ∃ y ∈ l, spread l = x - y ∧ ∀ z ∈ l, y ≤ z ∧ z ≤ x := by
  obtain ⟨x, hx⟩ := Option.ne_none_iff_exists'.mp (mt List.max?_eq_none_iff.mp hne)
  obtain ⟨y, hy⟩ := Option.ne_none_iff_exists'.mp (mt List.min?_eq_none_iff.mp hne)
  have hmax := List.max?_eq_some_iff.mp hx
  have hmin := List.min?_eq_some_iff.mp hy
  exact ⟨x, hmax.1, y, hmin.1, by simp [spread, hx, hy], fun z hz => ⟨hmin.2 z hz, hmax.2 z hz⟩⟩

theorem le_spread {x y : Int} (hx : x ∈ l) (hy : y ∈ l) : x - y ≤ spread l := by
  obtain ⟨u, -, v, -, hspread, hall⟩ := exists_spread (List.ne_nil_of_mem hx)
  have := (hall x hx).2
  have := (hall y hy).1
  omega

section Move

variable {i j : Nat} {x y : Int} (hi : l[i]? = some x) (hj : l[j]? = some y) (hij : i ≠ j)

include hi hj hij

theorem mem_move {z : Int} : z ∈ (l.set i (x - 1)).set j (y + 1) ↔
    z = x - 1 ∨ z = y + 1 ∨ ∃ k, k ≠ i ∧ k ≠ j ∧ l[k]? = some z := by
  obtain ⟨hilt, -⟩ := List.getElem?_eq_some_iff.mp hi
  obtain ⟨hjlt, -⟩ := List.getElem?_eq_some_iff.mp hj
  rw [List.mem_iff_getElem?]
  constructor
  · rintro ⟨k, hk⟩
    by_cases hkj : j = k
    · subst hkj
      rw [List.getElem?_set_self (by simpa using hjlt)] at hk
      exact .inr (.inl (Option.some.inj hk).symm)
    · rw [List.getElem?_set_ne hkj] at hk
      by_cases hki : i = k
      · subst hki
        rw [List.getElem?_set_self hilt] at hk
        exact .inl (Option.some.inj hk).symm
      · rw [List.getElem?_set_ne hki] at hk
        exact .inr (.inr ⟨k, Ne.symm hki, Ne.symm hkj, hk⟩)
  · rintro (rfl | rfl | ⟨k, hki, hkj, hk⟩)
    · exact ⟨i, by rw [List.getElem?_set_ne hij.symm, List.getElem?_set_self hilt]⟩
    · exact ⟨j, by rw [List.getElem?_set_self (by simpa using hjlt)]⟩
    · exact ⟨k, by rw [List.getElem?_set_ne hkj.symm, List.getElem?_set_ne hki.symm, hk]⟩

/-- One unit moves from the place of a largest number. -/
theorem spread_move_le_iff (hmax : ∀ z ∈ l, z ≤ x) :
    spread ((l.set i (x - 1)).set j (y + 1)) ≤ spread l ↔ y < x := by
  have hx := List.mem_of_getElem? hi
  have hy := List.mem_of_getElem? hj
  have hne : l ≠ [] := List.ne_nil_of_mem hx
  have hmem := @mem_move l i j x y hi hj hij
  constructor
  · intro hle
    by_contra hlt
    have hxy : y = x := le_antisymm (hmax y hy) (not_lt.mp hlt)
    obtain ⟨u, hu, v, hv, hspread, -⟩ := exists_spread hne
    -- a number that is not above the least one is left
    have hleft : ∃ w ∈ (l.set i (x - 1)).set j (y + 1), w ≤ v := by
      obtain ⟨k, hk⟩ := List.mem_iff_getElem?.mp hv
      by_cases hvx : v = x
      · exact ⟨x - 1, hmem.mpr (.inl rfl), by omega⟩
      · refine ⟨v, hmem.mpr (.inr (.inr ⟨k, ?_, ?_, hk⟩)), le_refl v⟩
        · rintro rfl
          exact hvx (Option.some.inj (hk.symm.trans hi))
        · rintro rfl
          exact hvx ((Option.some.inj (hk.symm.trans hj)).trans hxy)
    obtain ⟨w, hw, hwv⟩ := hleft
    have hgrown := le_spread (hmem.mpr (.inr (.inl rfl))) hw
    have := hmax u hu
    omega
  · intro hlt
    obtain ⟨u, hu, v, hv, hspread, -⟩ := exists_spread (List.ne_nil_of_mem (hmem.mpr (.inl rfl)))
    have hux : u ≤ x := by
      rcases hmem.mp hu with rfl | rfl | ⟨k, -, -, hk⟩
      · omega
      · omega
      · exact hmax u (List.mem_of_getElem? hk)
    have hvm : ∃ m ∈ l, m ≤ v := by
      rcases hmem.mp hv with rfl | rfl | ⟨k, -, -, hk⟩
      · exact ⟨y, hy, by omega⟩
      · exact ⟨y, hy, by omega⟩
      · exact ⟨v, List.mem_of_getElem? hk, le_refl v⟩
    obtain ⟨m, hm, hmv⟩ := hvm
    have := le_spread hx hm
    omega

end Move

end Fastblock.Core
