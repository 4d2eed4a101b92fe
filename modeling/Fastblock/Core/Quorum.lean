import Mathlib.Data.Finset.Card
import Mathlib.Data.List.Basic

/-!
# Majorities

`Majority l p`: more than half of the entries of `l` satisfy `p`. Two
majorities of one list share a member (`Majority.inter`); this is the only
fact about quorums that the election and commit arguments use.
-/
namespace Fastblock.Core

universe u

variable {α : Type u}

def Majority (l : List α) (p : α → Bool) : Prop := l.length / 2 < l.countP p

instance (l : List α) (p : α → Bool) : Decidable (Majority l p) :=
  inferInstanceAs (Decidable (_ < _))

theorem countP_add_countP_le (l : List α) (p q : α → Bool) :
    l.countP p + l.countP q ≤ l.length + l.countP (fun x => p x && q x) := by
  induction l with
  | nil => simp
  | cons x l ih =>
    simp only [List.countP_cons, List.length_cons]
    cases p x <;> cases q x <;> simp <;> omega

theorem Majority.inter {l : List α} {p q : α → Bool} (hp : Majority l p) (hq : Majority l q) :
    ∃ x ∈ l, p x = true ∧ q x = true := by
  have h := countP_add_countP_le l p q
  unfold Majority at hp hq
  have hpos : 0 < l.countP (fun x => p x && q x) := by omega
  obtain ⟨x, hx, hpq⟩ := List.countP_pos_iff.mp hpos
  exact ⟨x, hx, by simpa using hpq⟩

theorem Majority.mono {l : List α} {p q : α → Bool} (hp : Majority l p)
    (h : ∀ x ∈ l, p x = true → q x = true) : Majority l q :=
  Nat.lt_of_lt_of_le hp (List.countP_mono_left h)

end Fastblock.Core
