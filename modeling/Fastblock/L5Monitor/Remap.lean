import Fastblock.L5Monitor.Monitor

/-!
# What Reblance does to the PGs

`reblancePool` (monitor/osd/calculator.go:691-905) changes the PGs of a
pool only by remapping them: one that is not remapped yet gets a new list,
the bit and the next version. A property of the PGs that stays when one of
them is remapped stays (`reblancePool_kept`).
-/
namespace Fastblock.L5

/-! ## The first counts -/

section First

variable {tree : List DomainNode}

theorem count_pgs (i : Nat) (l : List Nat) (s : Rebalance) :
    (l.foldl (fun s osd => s.count tree i osd) s).pgs = s.pgs := by
  induction l generalizing s with
  | nil => rfl
  | cons o l ih => rw [List.foldl_cons, ih]; rfl

theorem getDomainPg_pgs (tree : List DomainNode) (pgs : List PGConfig) : (getDomainPg tree pgs).pgs = pgs := by
  have hgen : ∀ (qs : List (PGConfig × Nat)) (s : Rebalance),
      (qs.foldl (fun s p => p.1.osdList.foldl (fun s osd => s.count tree p.2 osd) s) s).pgs = s.pgs := fun qs => by
    induction qs with
    | nil => exact fun _ => rfl
    | cons q qs ih => exact fun s => (ih _).trans (count_pgs ..)
  exact hgen _ _

end First

/-! ## Remapped PGs -/

/-- A PG that is remapped now. -/
structure Remaps (pg pg' : PGConfig) : Prop where
  version : pg'.version = pg.version + 1
  before : pg.pgState.remapped = false
  after : pg'.pgState.remapped = true
  osdList : pg'.osdList = pg.osdList

/-- A property of the PGs that stays when one of them is remapped. -/
def KeptByRemap (I : List PGConfig → Prop) : Prop :=
  ∀ pgs i pg pg', I pgs → pgs[i]? = some pg → Remaps pg pg' → I (pgs.set i pg')

section Reblance

variable {tree : List DomainNode} {ord : MapOrder (Bytes × Int)} {cfgPgSize pgSize i : Nat} {candidates : List Bytes}
  {s s' : Rebalance}

variable (tree i candidates) in
theorem addMembers_pgs (n : Nat) (s : Rebalance) (l : List Nat) :
    (s.addMembers tree i candidates n l).1.pgs = s.pgs := by
  induction n generalizing s l with
  | zero => rfl
  | succ n ih =>
    rw [Rebalance.addMembers]
    split
    · exact ih _ _
    · exact ih _ _

variable {I : List PGConfig → Prop} (hI : KeptByRemap I)

include hI

theorem addPgOsd_kept {pg : PGConfig} (hpg : s.pgs[i]? = some pg) (hrem : pg.pgState.remapped = false) (h : I s.pgs) :
    I (addPgOsd tree cfgPgSize pgSize i candidates s).pgs := by
  unfold addPgOsd
  rw [hpg]
  dsimp only
  have hpgs := addMembers_pgs tree i candidates (cfgPgSize - pg.osdList.length) s pg.osdList
  split
  · rwa [hpgs]
  · dsimp only
    rw [hpgs]
    refine hI _ _ _ _ h hpg ⟨rfl, hrem, ?_, rfl⟩
    dsimp only
    split <;> rfl

theorem fillPg_kept (h : I s.pgs) : I (fillPg tree ord cfgPgSize pgSize s i).pgs := by
  unfold fillPg
  split
  · exact h
  · next pg hpg =>
    split
    · exact h
    · next hskip =>
      obtain ⟨hrem, -⟩ : pg.pgState.remapped = false ∧ pg.pgState.down = false := by simpa using hskip
      split
      · exact h
      · exact addPgOsd_kept hI (s := { s with iterations := s.iterations + 1 }) hpg hrem h

theorem fill_kept (todo : List Nat) (h : I s.pgs) : I (todo.foldl (fillPg tree ord cfgPgSize pgSize) s).pgs := by
  induction todo generalizing s with
  | nil => exact h
  | cons _ todo ih => exact ih (fillPg_kept hI h)

theorem transferPG_kept {maxPgDomain : Bytes} (h : I s.pgs) (ht : (s.pgs[i]?).any transferable = true)
    (hs : transferPG tree i maxPgDomain candidates s = some s') : I s'.pgs := by
  cases hpg : s.pgs[i]? with
  | none => simp [hpg] at ht
  | some pg =>
    simp only [hpg, Option.any_some, transferable, Bool.not_eq_true', Bool.or_eq_false_iff] at ht
    simp only [transferPG, hpg, Option.bind_eq_bind, Option.bind_some] at hs
    obtain ⟨domain, -, hs⟩ := Option.bind_eq_some_iff.mp hs
    obtain rfl := Option.some.inj hs
    exact hI _ _ _ _ h hpg ⟨rfl, ht.1.1.1, rfl, rfl⟩

theorem transferFirstPG_kept {maxPgDomain : Bytes} (ids : List Nat) (h : I s.pgs)
    (hs : transferFirstPG tree maxPgDomain candidates s ids = some s') : I s'.pgs := by
  induction ids with
  | nil => cases hs
  | cons i ids ih =>
    rw [transferFirstPG] at hs
    split at hs
    · next hcond =>
      split at hs
      · next r hr =>
        obtain rfl := Option.some.inj hs
        exact transferPG_kept hI h (Bool.and_eq_true_iff.mp hcond).2 hr
      · exact ih hs
    · exact ih hs

theorem transferLoop_kept (per : Int) (n : Nat) (h : I s.pgs) : I (transferLoop tree ord per n s).pgs := by
  induction n generalizing s with
  | zero => exact h
  | succ n ih =>
    rw [transferLoop]
    split
    · next r hr =>
      refine ih ?_
      unfold transferTurn at hr
      dsimp only at hr
      split at hr
      · exact transferFirstPG_kept hI (s := { s with iterations := s.iterations + 2 }) _ h hr
      · cases hr
    · exact h

theorem reblancePool_kept {t : Topology} {pool : PoolConfig} {pgOrder : List Nat} {pgs' : List PGConfig}
    (h : reblancePool t pool pgOrder ord = .ok pgs') (h0 : I pool.pgs) : I pgs' := by
  unfold reblancePool at h
  dsimp only at h
  split at h
  · cases h
  · split at h
    · cases h
      exact h0
    · cases h
      refine transferLoop_kept hI _ _ (fill_kept hI _ ?_)
      rwa [getDomainPg_pgs]

end Reblance
end Fastblock.L5
