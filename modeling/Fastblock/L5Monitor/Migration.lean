import Fastblock.Core.Spread
import Fastblock.L5Monitor.Placed

/-!
# The transfers of the first placement

What one round of step 2 of `SimpleInitial`
(monitor/osd/calculator.go:1321-1362) does to the hosts of the PGs. A round
moves one PG away from a host with most PGs, to the first of the three hosts
with fewest PGs that it does not have (`Balance.target`,
`balanceRound_moved`). The number of replicas stays, and `pg_num_on_host`
counts them. The difference between the hosts grows exactly if the new host
had as many PGs as the old one, which `transfer_one` does not ask
(`migration_balance`).

No bound on the number of PGs is assumed: a round that panics moves nothing.
-/
namespace Fastblock.L5

/-! ## The host with most PGs -/

theorem maxIndex_max {array : List Int} (hne : array ≠ []) (hlow : ∀ x ∈ array, -2147483648 < x) :
    ∃ m, goIndex array (maxIndex array) = some m ∧ ∀ x ∈ array, x ≤ m := by
  -- the largest number so far and its index, among `seen ++ l` once a number is seen
  have hgen : ∀ (l seen : List Int) (m : Int × Int), (∀ x ∈ seen ++ l, -2147483648 < x) →
      (∀ x ∈ seen, x ≤ m.1) → (seen = [] ∧ m.1 = -2147483648 ∨ goIndex (seen ++ l) m.2 = some m.1) →
      let r := (l.zipIdx seen.length).foldl
        (fun (m : Int × Int) p => if p.1 > m.1 then (p.1, (p.2 : Int)) else m) m
      (∀ x ∈ seen ++ l, x ≤ r.1) ∧ (seen ++ l = [] ∨ goIndex (seen ++ l) r.2 = some r.1) := fun l => by
    induction l with
    | nil =>
      intro seen m _ hle hm
      simp only [List.append_nil] at hm ⊢
      exact ⟨hle, hm.imp_left And.left⟩
    | cons x l ih =>
      intro seen m hall hle hm
      have hx := hall x (by simp)
      have hsplit : seen ++ x :: l = (seen ++ [x]) ++ l := by simp
      have hat : goIndex (seen ++ x :: l) (seen.length : Int) = some x := by
        rw [goIndex_eq_some]
        simp
      rw [hsplit] at hall hm hat ⊢
      have := ih (seen ++ [x]) (if x > m.1 then (x, (seen.length : Int)) else m) hall
        (fun y hy => by
          rcases List.mem_append.mp hy with hy | hy
          · have := hle y hy
            split <;> omega
          · have := List.mem_singleton.mp hy
            split <;> omega)
        (by
          split
          · exact .inr hat
          · next hnot =>
            rcases hm with ⟨-, hm⟩ | hm
            · omega
            · exact .inr hm)
      simpa only [List.length_append, List.length_singleton, List.zipIdx_cons, List.foldl_cons] using this
  have := hgen array [] (-2147483648, -1) hlow (by simp) (.inl ⟨rfl, rfl⟩)
  exact ⟨_, this.2.resolve_left hne, this.1⟩

/-! ## One round -/

section Round

variable {hostCount pgSize pgCount : Nat} {b b' : Balance} {maxHost : Int} {t : Top3} {onHost : Int → List Nat}
  {pgPerHost : Int}

/-- The host that `transfer_one` moves a PG to: the first of the three
that it does not have. -/
def Top3.target (t : Top3) (pg : List Int) : Option Int :=
  [t.minIndex, t.secondMinIndex, t.thirdMinIndex].find? fun host => !goContains pg host 0

/-- The host that gets a PG in a round: the target of the first PG of the
host with most PGs that has one. -/
def Balance.target (onHost : Int → List Nat) (b : Balance) : Option Int :=
  (onHost (maxIndex b.nums)).findSome? fun pgId => (b.rows[pgId]?).bind fun pg =>
    if goContains pg (maxIndex b.nums) 1 then (top3MinIndex b.nums).target pg else none

theorem transferOne_move {pg nums : List Int} {r : List Int × List Int}
    (h : transferOne pg maxHost t nums = some (some r)) :
    ∃ host, t.target pg = some host ∧ host ∉ pg ∧ moveHost pg nums (goFind pg maxHost 1) maxHost host = some r := by
  have move : ∀ {host : Int}, (!goContains pg host 0) = true → t.target pg = some host →
      (moveHost pg nums (goFind pg maxHost 1) maxHost host).map some = some (some r) →
      ∃ host, t.target pg = some host ∧ host ∉ pg ∧
        moveHost pg nums (goFind pg maxHost 1) maxHost host = some r := fun {host} hnew ht h => by
    obtain ⟨r', hr, he⟩ := Option.map_eq_some_iff.mp h
    obtain rfl := Option.some.inj he
    exact ⟨host, ht, by simpa [goContains] using hnew, hr⟩
  unfold transferOne at h
  split at h
  · next hnew => exact move hnew (by simp [Top3.target, hnew]) h
  next hmin =>
  split at h
  · next hnew => exact move hnew (by simp [Top3.target, hmin, hnew]) h
  next hsecond =>
  split at h
  · next hnew => exact move hnew (by simp [Top3.target, hmin, hsecond, hnew]) h
  · cases h

theorem transferOne_stays {pg nums : List Int} (h : transferOne pg maxHost t nums = some none) :
    t.target pg = none := by
  unfold transferOne at h
  split at h
  · simp at h
  next hmin =>
  split at h
  · simp at h
  next hsecond =>
  split at h
  · simp at h
  next hthird =>
  simp [Top3.target, hmin, hsecond, hthird]

theorem transferFirst_moved : ∀ {ids : List Nat}, transferFirst b maxHost t ids = some (some b') →
    ∃ src dst : Nat, maxHost = src ∧ (ids.findSome? fun pgId => (b.rows[pgId]?).bind fun pg =>
      if goContains pg maxHost 1 then t.target pg else none) = some (dst : Int) ∧ Moved b b' src dst
  | [], h => by cases h
  | pgId :: ids, h => by
    obtain ⟨pg, hpg, h⟩ := Option.bind_eq_some_iff.mp h
    rw [List.findSome?_cons, hpg, Option.bind_some]
    split at h
    · next hmax =>
      rw [if_pos hmax]
      obtain ⟨r, hr, h⟩ := Option.bind_eq_some_iff.mp h
      cases r with
      | none =>
        rw [transferOne_stays hr]
        exact transferFirst_moved h
      | some r =>
        obtain rfl := Option.some.inj (Option.some.inj h)
        obtain ⟨host, ht, hnew, hmove⟩ := transferOne_move hr
        obtain ⟨src, dst, hsrc, rfl, hm⟩ := moveHost_moved hpg hmax hnew hmove
        exact ⟨src, dst, hsrc, by rw [ht], hm⟩
    · next hmax =>
      rw [if_neg hmax]
      exact transferFirst_moved h

/-- A round that moves a PG takes it from the host that `max_index` gives to
the target. -/
theorem balanceRound_moved (h : balanceRound pgPerHost onHost b = some (some b')) :
    ∃ src dst : Nat, maxIndex b.nums = src ∧ b.target onHost = some (dst : Int) ∧ Moved b b' src dst := by
  obtain ⟨_, -, h⟩ := Option.bind_eq_some_iff.mp h
  obtain ⟨_, -, h⟩ := Option.bind_eq_some_iff.mp h
  split at h
  · exact transferFirst_moved h
  · cases h

/-- All rounds that do not panic keep the invariant. -/
theorem balance_keeps : ∀ {loops : Nat} {b b' : Balance}, b.Inv hostCount pgSize pgCount →
    balance pgPerHost onHost loops b = some b' → b'.Inv hostCount pgSize pgCount
  | 0, b, b', hb, h => Option.some.inj h ▸ hb
  | loops + 1, b, b', hb, h => by
    obtain ⟨r, hr, h⟩ := Option.bind_eq_some_iff.mp h
    cases r with
    | none => exact Option.some.inj h ▸ hb
    | some b₁ =>
      obtain ⟨src, dst, -, -, hm⟩ := balanceRound_moved hr
      exact balance_keeps (hm.inv hb) h

end Round

/-! ## What a migration does -/

section Migration

variable {hostCount pgSize pgCount : Nat} {b b' : Balance}

theorem Balance.Inv.replicas (hb : b.Inv hostCount pgSize pgCount) : b.rows.flatten.length = pgCount * pgSize := by
  have hgen : ∀ {rows : List (List Int)}, (∀ row ∈ rows, GoodRow hostCount pgSize row) →
      rows.flatten.length = rows.length * pgSize := fun {rows} hrows => by
    induction rows with
    | nil => simp
    | cons row rows ih =>
      have hrow := (hrows row (List.mem_cons_self ..)).length
      have hrest := ih fun r hr => hrows r (List.mem_cons_of_mem _ hr)
      rw [List.flatten_cons, List.length_append, hrow, hrest, List.length_cons, Nat.succ_mul, Nat.add_comm]
  rw [hgen hb.rows, hb.length]

theorem Counts.nonneg {rows : List (List Int)} {nums : List Int} (hc : Counts hostCount rows nums) :
    ∀ x ∈ nums, 0 ≤ x := fun x hx => by
  obtain ⟨h, hh, rfl⟩ := List.getElem_of_mem hx
  have := hc.count h (hc.length ▸ hh)
  rw [List.getElem?_eq_getElem hh, Option.some.injEq] at this
  omega

/-- No host has more PGs than the one that `max_index` gives. -/
theorem Balance.Inv.most (hb : b.Inv hostCount pgSize pgCount) (hne : b.nums ≠ []) {src : Nat}
    (hmax : maxIndex b.nums = src) : ∃ x, b.nums[src]? = some x ∧ ∀ z ∈ b.nums, z ≤ x := by
  obtain ⟨x, hx, hall⟩ := @maxIndex_max b.nums hne fun z hz => by
    have := hb.counts.nonneg z hz
    omega
  rw [hmax] at hx
  exact ⟨x, (goIndex_eq_some.mp hx).2, hall⟩

theorem Counts.eq {rows : List (List Int)} {nums : List Int} (hc : Counts hostCount rows nums) {h : Nat} {x : Int}
    (hx : nums[h]? = some x) : x = onHostCount rows h :=
  Option.some.inj (hx.symm.trans (hc.count h (hc.length ▸ (List.getElem?_eq_some_iff.mp hx).1)))

theorem Moved.spread_le_iff {src dst : Nat} (hb : b.Inv hostCount pgSize pgCount) (hm : Moved b b' src dst)
    (hmax : maxIndex b.nums = src) :
    Core.spread b'.nums ≤ Core.spread b.nums ↔ onHostCount b.rows dst < onHostCount b.rows src := by
  obtain ⟨x, y, hx, hy, hnums⟩ := hm.nums
  obtain ⟨m, hm', hall⟩ := hb.most (List.ne_nil_of_mem (List.mem_of_getElem? hx)) hmax
  obtain rfl : x = m := Option.some.inj (hx.symm.trans hm')
  rw [hnums, Core.spread_move_le_iff hx hy hm.ne hall, hb.counts.eq hx, hb.counts.eq hy]
  exact Int.ofNat_lt

/-- Each migration of step 2, after any number of rounds from what step 1
chose. -/
theorem migration_balance {perm : List Nat} {draws : Nat → Nat → List Nat} {rows : List (List Int)} {nums : List Int}
    (hsize : 1 ≤ pgSize ∧ pgSize ≤ hostCount) (hdraws : Draws hostCount perm draws)
    (hrows : chooseRows hostCount pgCount pgSize perm draws = some rows)
    (hnums : pgNumOnHost hostCount rows = some nums) {loops : Nat}
    (hb : balance ((pgCount * pgSize / hostCount : Nat)) (pgOnHost rows) loops ⟨rows, nums⟩ = some b)
    (hround : balanceRound ((pgCount * pgSize / hostCount : Nat)) (pgOnHost rows) b = some (some b')) :
    b'.rows.flatten.length = rows.flatten.length ∧ Counts hostCount b'.rows b'.nums ∧
      ∃ src dst : Nat, maxIndex b.nums = src ∧ b.target (pgOnHost rows) = some (dst : Int) ∧ Moved b b' src dst ∧
        (∀ h : Nat, h < hostCount → onHostCount b.rows h ≤ onHostCount b.rows src) ∧
        (Core.spread b'.nums ≤ Core.spread b.nums ↔ onHostCount b.rows dst < onHostCount b.rows src) := by
  obtain ⟨hlen, hgood⟩ := chooseRows_good (by omega) hsize.1 hdraws hrows
  obtain ⟨nums', hnums', hcounts⟩ := pgNumOnHost_counts hgood
  obtain rfl : nums = nums' := Option.some.inj (hnums.symm.trans hnums')
  have hinit : Balance.Inv hostCount pgSize pgCount ⟨rows, nums⟩ := ⟨hlen, hgood, hcounts⟩
  have hinv := balance_keeps hinit hb
  obtain ⟨src, dst, hmax, htarget, hm⟩ := balanceRound_moved hround
  have hinv' := hm.inv hinv
  refine ⟨hinv'.replicas.trans hinit.replicas.symm, hinv'.counts, src, dst, hmax, htarget, hm, fun h hh => ?_,
    hm.spread_le_iff hinv hmax⟩
  have hcount := hinv.counts.count h hh
  obtain ⟨x, hx, hall⟩ := hinv.most (List.ne_nil_of_mem (List.mem_of_getElem? hcount)) hmax
  have hle := hall _ (List.mem_of_getElem? hcount)
  rw [hinv.counts.eq hx] at hle
  exact Int.ofNat_le.mp hle

/-- Six PGs of two members on three hosts: host 0 is in two of them, the
other ones are in five. -/
def sixPgs : Balance := ⟨[[0, 1], [1, 2], [2, 1], [0, 2], [1, 2], [2, 1]], [2, 5, 5]⟩

/-- The draws that give `sixPgs`: the second host of each PG. -/
def sixDraws (i _ : Nat) : List Nat := [if i = 1 ∨ i = 3 ∨ i = 4 then 2 else 1]

theorem sixDraws_draws : Draws 3 [0, 1, 2] sixDraws where
  perm := .refl _
  intn i j d hd := by
    have := List.mem_singleton.mp hd
    split at this <;> omega

/-- After the first round of `sixPgs`: the first PG went from host 1 to
host 2. -/
def sixMoved : Balance := ⟨[[0, 2], [1, 2], [2, 1], [0, 2], [1, 2], [2, 1]], [2, 4, 6]⟩

theorem sixMoved_replicas : sixMoved.rows.flatten.length = sixPgs.rows.flatten.length ∧
    Counts 3 sixMoved.rows sixMoved.nums ∧
      ∃ src dst : Nat, maxIndex sixPgs.nums = src ∧ sixPgs.target (pgOnHost sixPgs.rows) = some (dst : Int) ∧
        Moved sixPgs sixMoved src dst ∧
        (∀ h : Nat, h < 3 → onHostCount sixPgs.rows h ≤ onHostCount sixPgs.rows src) ∧
        (Core.spread sixMoved.nums ≤ Core.spread sixPgs.nums ↔
          onHostCount sixPgs.rows dst < onHostCount sixPgs.rows src) :=
  @migration_balance 3 2 6 sixPgs sixMoved [0, 1, 2] sixDraws sixPgs.rows sixPgs.nums (by decide) sixDraws_draws
    (by decide) (by decide) 0 rfl rfl

/-- The first PG has the least loaded host, so it goes to the third one,
that has as many PGs as the one it leaves. -/
theorem spread_grows : chooseRows 3 6 2 [0, 1, 2] sixDraws = some sixPgs.rows ∧
    pgNumOnHost 3 sixPgs.rows = some sixPgs.nums ∧
      balanceRound ((6 * 2 / 3 : Nat)) (pgOnHost sixPgs.rows) sixPgs = some (some sixMoved) ∧
        Core.spread sixPgs.nums = 3 ∧ Core.spread sixMoved.nums = 4 :=
  ⟨by decide, by decide, rfl, by decide, by decide⟩

end Migration

end Fastblock.L5
