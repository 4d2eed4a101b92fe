import Mathlib.Logic.Basic

/-!
# Labelled transition systems

A system is a set of initial states and a labelled step relation; a run is a
list of labels. `Inductive.reachable` packages the induction over runs once:
a predicate that holds initially and is kept by every step holds in every
reachable state. `restrict` keeps the steps that meet a guard on the state
before the step and on the label, so "in every run whose steps all meet the
guard" is reachability in the restricted system.
-/
namespace Fastblock.Core

universe u v

structure Lts (S : Type u) (L : Type v) where
  init : S → Prop
  step : S → L → S → Prop

namespace Lts

variable {S : Type u} {L : Type v} {M : Lts S L}

inductive Run (M : Lts S L) : S → List L → S → Prop where
  | nil (s : S) : Run M s [] s
  | snoc {s s' s'' : S} {ls : List L} {l : L} :
      Run M s ls s' → M.step s' l s'' → Run M s (ls ++ [l]) s''

theorem Run.cons {s s' s'' : S} {l : L} {ls : List L} (hs : M.step s l s') (hr : M.Run s' ls s'') :
    M.Run s (l :: ls) s'' := by
  induction hr with
  | nil => exact (Run.nil s).snoc hs
  | snoc _ hl ih => exact ih.snoc hl

/-- A fact about the labels so far and the state that every step keeps. -/
theorem Run.invariant {I : List L → S → Prop} {s₀ s : S} {ls : List L} (hr : M.Run s₀ ls s) (h0 : I [] s₀)
    (hstep : ∀ ls s l s', I ls s → M.step s l s' → I (ls ++ [l]) s') : I ls s := by
  induction hr with
  | nil => exact h0
  | snoc _ hs ih => exact hstep _ _ _ _ ih hs

def Reachable (M : Lts S L) (s : S) : Prop := ∃ s₀ ls, M.init s₀ ∧ M.Run s₀ ls s

theorem Reachable.of_init {s : S} (h : M.init s) : M.Reachable s := ⟨s, [], h, .nil s⟩

theorem Reachable.step {s s' : S} {l : L} (h : M.Reachable s) (hs : M.step s l s') :
    M.Reachable s' := by
  obtain ⟨s₀, ls, h0, hr⟩ := h
  exact ⟨s₀, ls ++ [l], h0, hr.snoc hs⟩

structure Inductive (M : Lts S L) (I : S → Prop) : Prop where
  init : ∀ s, M.init s → I s
  step : ∀ s l s', I s → M.step s l s' → I s'

theorem Inductive.reachable {I : S → Prop} (h : M.Inductive I) {s : S} (hr : M.Reachable s) :
    I s := by
  obtain ⟨s₀, ls, h0, hr⟩ := hr
  have hi := h.init s₀ h0
  clear h0
  induction hr with
  | nil => exact hi
  | snoc _ hs ih => exact h.step _ _ _ ih hs

/-- The steps of `M` taken in a state, and with a label, that meet `G`. -/
def restrict (M : Lts S L) (G : S → L → Prop) : Lts S L where
  init := M.init
  step s l s' := G s l ∧ M.step s l s'

theorem Run.of_restrict {G : S → L → Prop} {s s' : S} {ls : List L} (h : (M.restrict G).Run s ls s') :
    M.Run s ls s' := by
  induction h with
  | nil => exact .nil s
  | snoc _ hs ih => exact ih.snoc hs.2

theorem Reachable.of_restrict {G : S → L → Prop} {s : S} (h : (M.restrict G).Reachable s) :
    M.Reachable s := by
  obtain ⟨s₀, ls, h0, hr⟩ := h
  exact ⟨s₀, ls, h0, hr.of_restrict⟩

theorem Reachable.to_restrict {G : S → L → Prop} (hG : ∀ s l, G s l) {s : S} (h : M.Reachable s) :
    (M.restrict G).Reachable s := by
  have hI : M.Inductive (M.restrict G).Reachable :=
    ⟨fun _ h => .of_init h, fun s l _ hr hs => hr.step ⟨hG s l, hs⟩⟩
  exact hI.reachable h

/-- Every step of the function `f` along the labels meets `P`. -/
def Along (f : S → L → S) (P : S → L → Prop) : S → List L → Prop
  | _, [] => True
  | s, l :: ls => P s l ∧ Along f P (f s l) ls

instance Along.decidable (f : S → L → S) (P : S → L → Prop) [∀ s l, Decidable (P s l)] :
    ∀ s ls, Decidable (Along f P s ls)
  | _, [] => isTrue trivial
  | s, l :: ls => @instDecidableAnd _ _ inferInstance (Along.decidable f P (f s l) ls)

theorem Run.along {f : S → L → S} {P : S → L → Prop} (hf : ∀ s l, P s l → M.step s l (f s l)) {s : S} {ls : List L}
    (h : Along f P s ls) : M.Run s ls (ls.foldl f s) := by
  induction ls generalizing s with
  | nil => exact .nil s
  | cons l ls ih => exact .cons (hf s l h.1) (ih h.2)

/-- The end of a run of the function `f` whose steps meet the guard. -/
def follow (f : S → L → Option S) (G : S → L → Prop) [∀ s l, Decidable (G s l)] : S → List L → Option S
  | s, [] => some s
  | s, l :: ls => if G s l then (f s l).bind fun s' => follow f G s' ls else none

theorem Run.follow {f : S → L → Option S} {G : S → L → Prop} [∀ s l, Decidable (G s l)]
    (hf : ∀ s l s', f s l = some s' → M.step s l s') {s s' : S} {ls : List L}
    (hs : Lts.follow f G s ls = some s') : (M.restrict G).Run s ls s' := by
  induction ls generalizing s with
  | nil =>
    obtain rfl := Option.some.inj hs
    exact .nil s
  | cons l ls ih =>
    rw [Lts.follow] at hs
    split at hs
    · next hG =>
      obtain ⟨s₁, hs₁, hs⟩ := Option.bind_eq_some_iff.mp hs
      exact .cons ⟨hG, hf s l s₁ hs₁⟩ (ih hs)
    · cases hs

theorem Reachable.run {s s' : S} {ls : List L} (h : M.Reachable s) (hr : M.Run s ls s') : M.Reachable s' := by
  induction hr with
  | nil => exact h
  | snoc _ hs ih => exact ih.step hs

theorem Reachable.follow {f : S → L → Option S} {G : S → L → Prop} [∀ s l, Decidable (G s l)]
    (hf : ∀ s l s', f s l = some s' → M.step s l s') {s s' : S} {ls : List L} (h : (M.restrict G).Reachable s)
    (hs : Lts.follow f G s ls = some s') : (M.restrict G).Reachable s' := h.run (Run.follow hf hs)

/-- A run that can be evaluated, and what holds at its end. -/
theorem Reachable.of_follow {f : S → L → Option S} {G : S → L → Prop} [∀ s l, Decidable (G s l)] {P : S → Prop}
    [DecidablePred P] {s : S} (hf : ∀ s l s', f s l = some s' → M.step s l s') (h0 : M.init s) (ls : List L)
    (h : ((Lts.follow f G s ls).any fun s' => decide (P s')) = true) : ∃ s', (M.restrict G).Reachable s' ∧ P s' := by
  obtain ⟨s', hs, hP⟩ := (Option.any_eq_true _ _).mp h
  have hinit : (M.restrict G).Reachable s := .of_init h0
  exact ⟨s', hinit.follow hf hs, of_decide_eq_true hP⟩

end Lts
end Fastblock.Core
