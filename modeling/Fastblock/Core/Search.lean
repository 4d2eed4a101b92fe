import Mathlib.Data.List.Sort

/-!
# Sorting by a key and search by bisection

`sortBy` gives a list with growing keys if the keys are distinct. `bisect`
is the loop that halves the interval `[low, high)` until it is empty: if
the positions that are below the key come before the others, it ends at
the first one that is not below. In a list with growing keys that is the
only place where the key can be.
-/
namespace Fastblock.Core

/-- `n` rounds of the loop at most. -/
def bisect (below : Nat → Bool) : Nat → Nat → Nat → Nat
  | 0, low, _ => low
  | n + 1, low, high =>
    if low < high then
      let mid := low + (high - low) / 2
      if below mid then bisect below n (mid + 1) high else bisect below n low mid
    else low

/-- The result separates the positions below the key from the others, if the
interval does at the start. -/
theorem bisect_separates {below : Nat → Bool} (hmono : ∀ i j, i ≤ j → below j = true → below i = true)
    {n low high : Nat}
    (hn : high - low ≤ n) (hlow : ∀ i < low, below i = true) (hhigh : ∀ i, high ≤ i → below i = false) (i : Nat) :
    below i = true ↔ i < bisect below n low high := by
  induction n generalizing low high with
  | zero =>
    refine ⟨fun hi => Nat.lt_of_not_le fun hle => ?_, hlow i⟩
    have hlow : low ≤ i := hle
    simp [hhigh i (by omega)] at hi
  | succ n ih =>
    rw [bisect]
    split
    · dsimp only
      generalize hmid : low + (high - low) / 2 = mid
      split
      · next hbelow => exact ih (by omega) (fun j hj => hmono j mid (by omega) hbelow) hhigh
      · next hbelow =>
        refine ih (by omega) hlow fun j hj => ?_
        exact Bool.eq_false_iff.mpr fun hj' => hbelow (hmono mid j hj hj')
    · refine ⟨fun hi => Nat.lt_of_not_le fun hle => ?_, hlow i⟩
      have hlow : low ≤ i := hle
      simp [hhigh i (by omega)] at hi

/-! ## Lists with growing keys -/

variable {α κ : Type} [LinearOrder κ]

def sortBy (key : α → κ) (xs : List α) : List α := xs.insertionSort fun a b => key a ≤ key b

theorem sortBy_perm (key : α → κ) (xs : List α) : (sortBy key xs).Perm xs := List.perm_insertionSort _ _

theorem sortBy_growing {key : α → κ} {xs : List α} (h : (xs.map key).Nodup) :
    (sortBy key xs).Pairwise fun a b => key a < key b := by
  have htotal : Std.Total fun a b : α => key a ≤ key b := ⟨fun a b => le_total (key a) (key b)⟩
  have htrans : IsTrans α fun a b => key a ≤ key b := ⟨fun _ _ _ => le_trans⟩
  have hle := List.pairwise_insertionSort (fun a b : α => key a ≤ key b) xs
  have hne : (sortBy key xs).Pairwise fun a b => key a ≠ key b :=
    List.pairwise_map.mp (((sortBy_perm key xs).map key).nodup_iff.mpr h)
  exact (hle.and hne).imp fun hab => lt_of_le_of_ne hab.1 hab.2

/-- The entry of a list at the first position that is not below the key. -/
def lowerBound (below : α → Bool) (xs : List α) : Option α :=
  xs[bisect (fun i => xs[i]?.any below) xs.length 0 xs.length]?

theorem mem_of_lowerBound {below : α → Bool} {xs : List α} {x : α} (h : lowerBound below xs = some x) : x ∈ xs :=
  List.mem_of_getElem? h

/-- In a list with growing keys the entry with the key is found. -/
theorem lowerBound_of_mem (key : α → κ) {k : κ} {below : α → Bool} (hbelow : ∀ x, below x = true ↔ key x < k)
    {xs : List α} (hs : xs.Pairwise fun a b => key a < key b) {x : α} (hx : x ∈ xs) (hk : key x = k) :
    lowerBound below xs = some x := by
  have hany : ∀ i, (xs[i]?.any below) = true ↔ ∃ h : i < xs.length, key xs[i] < k := fun i => by
    rcases Nat.lt_or_ge i xs.length with hi | hi
    · simp [hi, hbelow]
    · simp [Nat.not_lt.mpr hi]
  have hlt : ∀ {i j} (hi : i < xs.length) (hj : j < xs.length), i < j → key xs[i] < key xs[j] := fun hi hj hij =>
    List.pairwise_iff_getElem.mp hs _ _ hi hj hij
  have hmono : ∀ i j : Nat, i ≤ j → (xs[j]?.any below) = true → (xs[i]?.any below) = true := by
    intro i j hij hj
    obtain ⟨hjlt, hjk⟩ := (hany j).mp hj
    refine (hany i).mpr ⟨Nat.lt_of_le_of_lt hij hjlt, ?_⟩
    rcases Nat.lt_or_eq_of_le hij with hij | rfl
    · exact lt_trans (hlt _ hjlt hij) hjk
    · exact hjk
  have hsep := @bisect_separates (fun i => xs[i]?.any below) hmono xs.length 0 xs.length (by omega) (by simp)
    fun i hi => by simp [hi]
  obtain ⟨j, hj, rfl⟩ := List.getElem_of_mem hx
  rw [lowerBound]
  generalize bisect _ _ _ _ = r at hsep
  -- the position of the entry is not below the key, and every position before it is
  have hle : r ≤ j := Nat.le_of_not_lt fun hlt' => by
    obtain ⟨_, hbelow⟩ := (hany j).mp ((hsep j).mpr hlt')
    exact absurd hk (ne_of_lt hbelow)
  have hge : ¬ r < j := fun hrj => by
    have hr : r < xs.length := Nat.lt_trans hrj hj
    exact Nat.lt_irrefl r ((hsep r).mp ((hany r).mpr ⟨hr, hk ▸ hlt hr hj hrj⟩))
  obtain rfl : r = j := by omega
  exact List.getElem?_eq_getElem hj

end Fastblock.Core
