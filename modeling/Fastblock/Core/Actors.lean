import Fastblock.Core.Lts
import Mathlib.Logic.Function.Basic

/-!
# Message-passing nodes and ghost invariants

Nodes with local states act one at a time; what they output is added to a
trace that no step removes from, so a message may be delivered any number
of times, in any order, or never. `Ghost` is the invariant rule used for
such systems: an auxiliary state `g` that a node extends when it acts,
with facts about each node and each output that the other nodes'
extensions do not invalidate.
-/
namespace Fastblock.Core

universe u v w

structure Actors (N : Type u) (E : Type v) (O : Type w) where
  init : Nat → N → Prop
  /-- whether a node may take an event, given all that was output before -/
  enabled : List (Nat × O) → Nat → E → Prop
  act : N → E → N × List O

namespace Actors

structure State (N : Type u) (O : Type w) where
  node : Nat → N
  trace : List (Nat × O)

variable {N : Type u} {E : Type v} {O : Type w}

def next (A : Actors N E O) (s : State N O) (i : Nat) (e : E) : State N O where
  node := Function.update s.node i (A.act (s.node i) e).1
  trace := s.trace ++ (A.act (s.node i) e).2.map (i, ·)

def lts (A : Actors N E O) : Lts (State N O) (Nat × E) where
  init s := (∀ i, A.init i (s.node i)) ∧ s.trace = []
  step s l s' := A.enabled s.trace l.1 l.2 ∧ s' = A.next s l.1 l.2

/-! ## Runs that can be evaluated -/

/-- The state after the given steps. -/
def runTo (A : Actors N E O) (s : State N O) : List (Nat × E) → State N O
  | [] => s
  | l :: ls => runTo A (A.next s l.1 l.2) ls

/-- Every step of the run is enabled when it is taken, and meets
`allowed`. -/
def RunOk (A : Actors N E O) (allowed : State N O → Nat × E → Prop) (s : State N O) : List (Nat × E) → Prop
  | [] => True
  | l :: ls => (A.enabled s.trace l.1 l.2 ∧ allowed s l) ∧ RunOk A allowed (A.next s l.1 l.2) ls

instance decidableRunOk (A : Actors N E O) [∀ tr i e, Decidable (A.enabled tr i e)]
    (allowed : State N O → Nat × E → Prop) [∀ s l, Decidable (allowed s l)] (s : State N O) :
    ∀ ls, Decidable (A.RunOk allowed s ls)
  | [] => isTrue trivial
  | l :: ls =>
    have := decidableRunOk A allowed (A.next s l.1 l.2) ls
    inferInstanceAs (Decidable ((A.enabled s.trace l.1 l.2 ∧ allowed s l) ∧
      A.RunOk allowed (A.next s l.1 l.2) ls))

theorem reachable_runTo {A : Actors N E O} {allowed : State N O → Nat × E → Prop} {s : State N O}
    (ls : List (Nat × E)) (hs : (A.lts.restrict allowed).Reachable s) (h : A.RunOk allowed s ls) :
    (A.lts.restrict allowed).Reachable (A.runTo s ls) := by
  induction ls generalizing s with
  | nil => exact hs
  | cons l ls ih => exact ih (hs.step (l := l) ⟨h.1.2, h.1.1, rfl⟩) h.2

/-! ## Ghost invariants -/

/-- A ghost invariant of the runs of `A` whose steps meet `allowed`. -/
structure Ghost (A : Actors N E O) (allowed : State N O → Nat × E → Prop) (G : Type*) where
  glob : G → Prop
  node : G → Nat → N → Prop
  out : G → Nat → O → Prop
  ext : Nat → G → G → Prop
  stable_node : ∀ {i j g g' n}, ext i g g' → j ≠ i → node g j n → node g' j n
  stable_out : ∀ {i j g g' o}, ext i g g' → out g j o → out g' j o
  init : ∀ s, A.lts.init s → ∃ g, glob g ∧ ∀ i, node g i (s.node i)
  step : ∀ {g s i e}, glob g → (∀ j, node g j (s.node j)) → (∀ x ∈ s.trace, out g x.1 x.2) →
    A.enabled s.trace i e → allowed s (i, e) →
    ∃ g', ext i g g' ∧ glob g' ∧ node g' i (A.act (s.node i) e).1 ∧
      ∀ o ∈ (A.act (s.node i) e).2, out g' i o

namespace Ghost

variable {A : Actors N E O} {allowed : State N O → Nat × E → Prop} {G : Type*}

/-- The ghost invariant as a predicate of states. -/
structure Holds (I : Ghost A allowed G) (g : G) (s : State N O) : Prop where
  glob : I.glob g
  node : ∀ i, I.node g i (s.node i)
  out : ∀ x ∈ s.trace, I.out g x.1 x.2

theorem inductive_holds (I : Ghost A allowed G) :
    (A.lts.restrict allowed).Inductive fun s => ∃ g, I.Holds g s where
  init s hs := by
    obtain ⟨g, hg, hn⟩ := I.init s hs
    exact ⟨g, hg, hn, by simp [hs.2]⟩
  step := by
    rintro s ⟨i, e⟩ s' ⟨g, h⟩ ⟨ha, he, rfl⟩
    obtain ⟨g', hext, hg', hn', ho'⟩ := I.step h.glob h.node h.out he ha
    refine ⟨g', hg', fun j => ?_, fun x hx => ?_⟩
    · by_cases hj : j = i
      · subst hj
        simpa [next] using hn'
      · simpa [next, hj] using I.stable_node hext hj (h.node j)
    · rcases List.mem_append.mp hx with hx | hx
      · exact I.stable_out hext (h.out x hx)
      · obtain ⟨o, ho, rfl⟩ := List.mem_map.mp hx
        exact ho' o ho

theorem reachable (I : Ghost A allowed G) {s : State N O} (h : (A.lts.restrict allowed).Reachable s) :
    ∃ g, I.Holds g s :=
  I.inductive_holds.reachable h

end Ghost
end Actors
end Fastblock.Core
