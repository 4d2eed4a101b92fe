import Mathlib.Data.List.Basic
import Mathlib.Order.Nat
import Mathlib.Algebra.BigOperators.Group.List.Basic
import Mathlib.Algebra.Order.Ring.Nat

/-!
# Consecutive keys with adjacent extents

A map in key order whose keys are consecutive and whose values are extents
of a stream, each starting where the one before it ends.
`Laid k p l k' p'` says so of the list `l` from the key `k` and the
position `p` to the key `k'` and the position `p'`. Cutting such a list at
a key cuts the stream at a position (`Laid.cut`).
-/
namespace Fastblock.Core

variable {α : Type*} (pos size : α → Nat)

def Laid : Nat → Nat → List (Nat × α) → Nat → Nat → Prop
  | k, p, [], k', p' => k' = k ∧ p' = p
  | k, p, (i, x) :: l, k', p' => i = k ∧ pos x = p ∧ Laid (k + 1) (p + size x) l k' p'

variable {pos size} {k k' p p' : Nat} {l l' : List (Nat × α)}

theorem Laid.nil : Laid pos size k p [] k p := ⟨rfl, rfl⟩

theorem laid_append {k'' p'' : Nat} : Laid pos size k p (l ++ l') k'' p'' ↔
    ∃ k' p', Laid pos size k p l k' p' ∧ Laid pos size k' p' l' k'' p'' := by
  induction l generalizing k p with
  | nil =>
    constructor
    · exact fun h => ⟨k, p, .nil, h⟩
    · rintro ⟨_, _, ⟨rfl, rfl⟩, h⟩
      exact h
  | cons x l ih => simp only [List.cons_append, Laid, ih, exists_and_left, and_assoc]

theorem Laid.le (h : Laid pos size k p l k' p') : k ≤ k' := by
  induction l generalizing k p with
  | nil => exact h.1.ge
  | cons x l ih => exact (Nat.le_succ k).trans (ih h.2.2)

theorem Laid.mem (h : Laid pos size k p l k' p') {x : Nat × α} (hx : x ∈ l) : k ≤ x.1 ∧ x.1 < k' := by
  induction l generalizing k p with
  | nil => cases hx
  | cons y l ih =>
    rcases List.mem_cons.mp hx with rfl | hx
    · exact ⟨h.1.ge, h.1 ▸ h.2.2.le⟩
    · have := ih h.2.2 hx
      omega

theorem Laid.map_fst (h : Laid pos size k p l k' p') : l.map (·.1) = List.range' k (k' - k) := by
  induction l generalizing k p with
  | nil => rw [h.1, Nat.sub_self, List.map_nil, List.range'_zero]
  | cons x l ih =>
    obtain ⟨h₁, -, h₂⟩ := h
    have hk := h₂.le
    rw [List.map_cons, ih h₂, h₁, show k' - k = k' - (k + 1) + 1 by omega, List.range'_succ]

theorem Laid.add_sum (h : Laid pos size k p l k' p') : p + (l.map fun x => size x.2).sum = p' := by
  induction l generalizing k p with
  | nil => exact h.2.symm
  | cons x l ih => rw [List.map_cons, List.sum_cons, ← Nat.add_assoc, ih h.2.2]

/-- The part below the key `i` and the part from it on. -/
theorem Laid.cut (h : Laid pos size k p l k' p') {i : Nat} (hi : k ≤ i) (hi' : i ≤ k') :
    ∃ q, Laid pos size k p (l.filter (·.1 < i)) i q ∧ Laid pos size i q (l.filter (i ≤ ·.1)) k' p' := by
  induction l generalizing k p with
  | nil =>
    obtain ⟨rfl, rfl⟩ := h
    obtain rfl := Nat.le_antisymm hi hi'
    exact ⟨p', .nil, .nil⟩
  | cons x l ih =>
    obtain ⟨j, x⟩ := x
    by_cases hki : i = k
    · -- the cut is before the whole list
      have hall : ∀ y ∈ (j, x) :: l, i ≤ y.1 := fun y hy => hki ▸ (h.mem hy).1
      rw [List.filter_eq_nil_iff.mpr fun y hy => by simpa using hall y hy,
        List.filter_eq_self.mpr fun y hy => by simpa using hall y hy]
      exact ⟨p, hki ▸ .nil, hki ▸ h⟩
    · obtain ⟨rfl, hp, h⟩ := h
      obtain ⟨q, h₁, h₂⟩ := ih h (by omega)
      refine ⟨q, ?_, ?_⟩
      · rw [List.filter_cons_of_pos (by simp; omega)]
        exact ⟨rfl, hp, h₁⟩
      · rwa [List.filter_cons_of_neg (by simp; omega)]

theorem Laid.isChain (h : Laid pos size k p l k' p') : l.IsChain fun x y => pos y.2 = pos x.2 + size x.2 := by
  induction l generalizing k p with
  | nil => exact .nil
  | cons x l ih =>
    cases l with
    | nil => exact .singleton x
    | cons y l => exact .cons_cons (h.2.2.2.1.trans (by rw [h.2.1])) (ih h.2.2)

theorem Laid.head (h : Laid pos size k p l k' p') {x : Nat × α} (hx : x ∈ l.head?) : pos x.2 = p := by
  cases l with
  | nil => cases hx
  | cons y l =>
    obtain rfl := Option.some.inj hx
    exact h.2.1

theorem Laid.getLast (h : Laid pos size k p l k' p') {x : Nat × α} (hx : x ∈ l.getLast?) :
    pos x.2 + size x.2 = p' := by
  obtain ⟨l₀, rfl⟩ := List.getLast?_eq_some_iff.mp hx
  obtain ⟨_, _, -, -, hp, -, rfl⟩ := laid_append.mp h
  rw [hp]

end Fastblock.Core
