import Mathlib.Data.List.Perm.Subperm
import Fastblock.Core.Groups
import Fastblock.L5Monitor.SimpleInitial

/-!
# The first placement is a placement

Every PG of `simpleInitial` has `pgSize` OSDs of different failure
domains, and no index that the function uses is outside of its slice,
whatever is drawn: `initial_placement`.

The rows of hosts keep one invariant from the selection on (`GoodRow`),
and the numbers of PGs count them (`Counts`). That the candidates for a
transfer exist needs three hosts and numbers below the 2147483647 that
`top3_min_index` starts with; a transfer is only tried when there are
three hosts (`three_hosts`), and the numbers are at most the number of
PGs.
-/
namespace Fastblock.L5

/-! ## Slices -/

section Slices

variable {α β : Type*}

theorem goIndex_eq_some {l : List α} {i : Int} {x : α} : goIndex l i = some x ↔ 0 ≤ i ∧ l[i.toNat]? = some x := by
  unfold goIndex
  split
  · next h => simp [h]
  · next h => simp [h]

theorem goIndex_of_lt {l : List α} {i : Int} (h0 : 0 ≤ i) (h : i < l.length) :
    ∃ x, goIndex l i = some x ∧ l[i.toNat]? = some x := by
  have hlt : i.toNat < l.length := by omega
  exact ⟨l[i.toNat], goIndex_eq_some.mpr ⟨h0, List.getElem?_eq_getElem hlt⟩, List.getElem?_eq_getElem hlt⟩

theorem goUpdate_of_lt {l : List α} {i : Int} (f : α → α) (h0 : 0 ≤ i) (h : i < l.length) :
    ∃ x, l[i.toNat]? = some x ∧ goUpdate l i f = some (l.set i.toNat (f x)) := by
  obtain ⟨x, hx, hx'⟩ := goIndex_of_lt h0 h
  exact ⟨x, hx', by rw [goUpdate, hx, Option.map_some]⟩

theorem goUpdate_eq_some {l l' : List α} {i : Int} {f : α → α} :
    goUpdate l i f = some l' ↔ 0 ≤ i ∧ ∃ x, l[i.toNat]? = some x ∧ l.set i.toNat (f x) = l' := by
  simp only [goUpdate, Option.map_eq_some_iff, goIndex_eq_some, and_assoc, exists_and_left]

theorem mapM_some {f : α → Option β} {l : List α} {r : List β} (h : l.mapM f = some r) :
    r.length = l.length ∧ ∀ b ∈ r, ∃ a ∈ l, f a = some b := by
  have hmap := Core.mapM_eq_some_iff.mp h
  refine ⟨by simpa using (congrArg List.length hmap).symm, fun b hb => ?_⟩
  exact List.mem_map.mp (hmap ▸ List.mem_map_of_mem hb)

theorem mapM_of_forall {f : α → Option β} {P : β → Prop} : ∀ {l : List α}, (∀ a ∈ l, ∃ b, f a = some b ∧ P b) →
    ∃ r, l.mapM f = some r ∧ ∀ b ∈ r, P b
  | [], _ => ⟨[], rfl, by simp⟩
  | a :: l, h => by
    obtain ⟨b, hb, hP⟩ := h a (List.mem_cons_self ..)
    obtain ⟨r, hr, hall⟩ := mapM_of_forall fun a ha => h a (List.mem_cons_of_mem _ ha)
    refine ⟨b :: r, ?_, List.forall_mem_cons.mpr ⟨hP, hall⟩⟩
    rw [List.mapM_cons, hb, hr]
    rfl

end Slices

/-! ## Step 1 -/

/-- A row of `pg_host_array`. -/
structure GoodRow (hostCount pgSize : Nat) (row : List Int) : Prop where
  length : row.length = pgSize
  nodup : row.Nodup
  range : ∀ h ∈ row, 0 ≤ h ∧ h < hostCount

/-- What `rand.Perm` and `rand.Intn` give for a number of hosts. -/
structure Draws (hostCount : Nat) (perm : List Nat) (draws : Nat → Nat → List Nat) : Prop where
  perm : perm.Perm (List.range hostCount)
  intn : ∀ i j, ∀ d ∈ draws i j, d < hostCount

section Select

variable {hostCount pgCount pgSize : Nat} {perm : List Nat} {draws : Nat → Nat → List Nat}

theorem getRandIndex_spec (hh : 0 < hostCount) (hperm : perm.Perm (List.range hostCount)) (need : Nat) :
    (getRandIndex hostCount need perm).length = need ∧ ∀ i ∈ getRandIndex hostCount need perm, i < hostCount := by
  have hdm := Nat.div_add_mod need hostCount
  have hlt := Nat.mod_lt need hh
  have hmul := Nat.mul_comm hostCount (need / hostCount)
  unfold getRandIndex
  constructor
  · simp only [List.length_append, List.length_flatMap, List.length_range, List.map_const', List.sum_replicate_nat,
      List.length_take, hperm.length_eq]
    omega
  · intro i hi
    rcases List.mem_append.mp hi with hi | hi
    · obtain ⟨_, -, hi⟩ := List.mem_flatMap.mp hi
      exact List.mem_range.mp hi
    · exact List.mem_range.mp (hperm.mem_iff.mp (List.mem_of_mem_take hi))

theorem pickHost_spec {row : List Int} {ds : List Nat} {host : Int} (hds : ∀ d ∈ ds, d < hostCount)
    (h : pickHost row ds = some host) : host ∉ row ∧ 0 ≤ host ∧ host < hostCount := by
  obtain ⟨d, hd, rfl⟩ := Option.map_eq_some_iff.mp h
  have hlt := hds d (List.mem_of_find?_eq_some hd)
  have hnew := List.find?_some hd
  simp only [Bool.not_eq_true', List.contains_eq_mem, decide_eq_false_iff_not] at hnew
  exact ⟨hnew, Int.natCast_nonneg d, Int.ofNat_lt.mpr hlt⟩

theorem chooseRow_good {leader : Int} (hl : 0 ≤ leader ∧ leader < hostCount) {ds : Nat → List Nat}
    (hds : ∀ j, ∀ d ∈ ds j, d < hostCount) :
    ∀ {n : Nat} {row : List Int}, chooseRow leader ds n = some row → GoodRow hostCount (n + 1) row
  | 0, row, h => by
    obtain rfl : [leader] = row := Option.some.inj h
    exact ⟨rfl, List.nodup_singleton _, by simpa using hl⟩
  | n + 1, row, h => by
    obtain ⟨row', hrow, h⟩ := Option.bind_eq_some_iff.mp h
    obtain ⟨host, hhost, h⟩ := Option.bind_eq_some_iff.mp h
    obtain rfl := Option.some.inj h
    have hg := chooseRow_good hl hds hrow
    obtain ⟨hnew, hr⟩ := pickHost_spec (hds (n + 1)) hhost
    refine ⟨by simp [hg.length], ?_, fun x hx => ?_⟩
    · exact List.nodup_append.mpr ⟨hg.nodup, List.nodup_singleton _, fun a ha b hb => by
        rintro rfl
        exact hnew (List.mem_singleton.mp hb ▸ ha)⟩
    · rcases List.mem_append.mp hx with hx | hx
      · exact hg.range x hx
      · exact List.mem_singleton.mp hx ▸ hr

theorem chooseRows_good (hh : 0 < hostCount) (hs : 0 < pgSize) (hd : Draws hostCount perm draws)
    {rows : List (List Int)} (h : chooseRows hostCount pgCount pgSize perm draws = some rows) :
    rows.length = pgCount ∧ ∀ row ∈ rows, GoodRow hostCount pgSize row := by
  obtain ⟨hlen, hrange⟩ := getRandIndex_spec hh hd.perm pgCount
  obtain ⟨hl, hmem⟩ := mapM_some h
  refine ⟨by rw [hl, List.length_zipIdx, hlen], fun row hrow => ?_⟩
  obtain ⟨⟨leader, i⟩, hp, hrow⟩ := hmem row hrow
  have hlt := hrange leader (List.fst_mem_of_mem_zipIdx hp)
  have := @chooseRow_good hostCount leader ⟨Int.natCast_nonneg leader, Int.ofNat_lt.mpr hlt⟩ _ (hd.intn i) _ _ hrow
  rwa [Nat.sub_add_cancel hs] at this

end Select

/-! ## The numbers of PGs -/

/-- The number of PGs on a host. -/
def onHostCount (rows : List (List Int)) (h : Int) : Nat := rows.flatten.count h

/-- `nums` has the number of PGs of each host. -/
structure Counts (hostCount : Nat) (rows : List (List Int)) (nums : List Int) : Prop where
  length : nums.length = hostCount
  count : ∀ h : Nat, h < hostCount → nums[h]? = some (onHostCount rows h : Int)

section Counts

variable {hostCount pgSize : Nat} {rows : List (List Int)} {nums : List Int}

theorem foldlM_count {hs : List Int} (hr : ∀ h ∈ hs, 0 ≤ h ∧ h < hostCount) :
    ∀ {nums : List Int}, nums.length = hostCount →
      ∃ nums', hs.foldlM (fun nums h => goUpdate nums h (· + 1)) nums = some nums' ∧ nums'.length = hostCount ∧
        ∀ h : Nat, nums'[h]? = nums[h]?.map (· + (hs.count (h : Int) : Int)) := by
  induction hs with
  | nil => exact fun {nums} hl => ⟨nums, rfl, hl, fun h => by simp⟩
  | cons x hs ih =>
    intro nums hl
    have hx := hr x (List.mem_cons_self ..)
    obtain ⟨v, hv, hup⟩ := goUpdate_of_lt (· + 1) hx.1 (hl ▸ hx.2)
    obtain ⟨nums', hf, hl', hc⟩ := @ih (fun h hh => hr h (List.mem_cons_of_mem _ hh))
      (nums.set x.toNat (v + 1)) (by rw [List.length_set, hl])
    refine ⟨nums', ?_, hl', fun h => ?_⟩
    · rw [List.foldlM_cons, hup]
      exact hf
    · rw [hc, List.count_cons, List.getElem?_set]
      by_cases he : x.toNat = h
      · have hxh : x = (h : Int) := by omega
        have hlt : h < nums.length := by omega
        subst he
        rw [if_pos rfl, if_pos hlt, hv, hxh]
        simp only [Option.map_some, Option.some.injEq]
        simp
        omega
      · have hxh : x ≠ (h : Int) := by omega
        simp [he, hxh]

theorem pgNumOnHost_counts (hg : ∀ row ∈ rows, GoodRow hostCount pgSize row) :
    ∃ nums, pgNumOnHost hostCount rows = some nums ∧ Counts hostCount rows nums := by
  obtain ⟨nums, hf, hl, hc⟩ := @foldlM_count hostCount rows.flatten (fun h hh => by
    obtain ⟨row, hrow, hh⟩ := List.mem_flatten.mp hh
    exact (hg row hrow).range h hh) (List.replicate hostCount 0) (List.length_replicate ..)
  refine ⟨nums, hf, hl, fun h hh => ?_⟩
  rw [hc, List.getElem?_replicate, if_pos hh, onHostCount]
  simp

/-- A host has at most one place in each PG. -/
theorem onHostCount_le (hg : ∀ row ∈ rows, GoodRow hostCount pgSize row) (h : Int) :
    onHostCount rows h ≤ rows.length :=
  Core.count_flatten_le h fun row hrow => List.nodup_iff_count_le_one.mp (hg row hrow).nodup h

theorem GoodRow.mem_of_full {row : List Int} (hg : GoodRow hostCount hostCount row) {h : Nat} (hh : h < hostCount) :
    (h : Int) ∈ row := by
  have hsub : row ⊆ (List.range hostCount).map Int.ofNat := fun x hx => by
    have hr := hg.range x hx
    exact List.mem_map.mpr ⟨x.toNat, List.mem_range.mpr (by omega), Int.toNat_of_nonneg hr.1⟩
  have hperm := (hg.nodup.subperm hsub).perm_of_length_le (by simp [hg.length])
  exact hperm.mem_iff.mpr (List.mem_map.mpr ⟨h, List.mem_range.mpr hh, rfl⟩)

/-- If a PG has as many members as there are hosts, each host is in each
PG. -/
theorem onHostCount_full (hg : ∀ row ∈ rows, GoodRow hostCount hostCount row) {h : Nat} (hh : h < hostCount) :
    onHostCount rows h = rows.length :=
  Core.count_flatten_eq (h : Int) fun row hrow =>
    List.count_eq_one_of_mem (hg row hrow).nodup ((hg row hrow).mem_of_full hh)

end Counts

/-! ## Candidates for a transfer -/

/-- After `n` numbers below the initial value the first `n` of the three
indices are set. -/
structure Top3.Inv (n : Nat) (t : Top3) : Prop where
  lt : t.minIndex < n ∧ t.secondMinIndex < n ∧ t.thirdMinIndex < n
  first : (0 ≤ t.minIndex ∨ t.minNum = 2147483647) ∧ (1 ≤ n → 0 ≤ t.minIndex)
  second : (0 ≤ t.secondMinIndex ∨ t.secondMinNum = 2147483647) ∧ (2 ≤ n → 0 ≤ t.secondMinIndex)
  third : (0 ≤ t.thirdMinIndex ∨ t.thirdMinNum = 2147483647) ∧ (3 ≤ n → 0 ≤ t.thirdMinIndex)

theorem Top3.Inv.step {n : Nat} {t : Top3} (h : t.Inv n) {num : Int} (hnum : num < 2147483647) :
    (t.step num n).Inv (n + 1) := by
  obtain ⟨hlt, h1, h2, h3⟩ := h
  unfold Top3.step
  split
  · exact ⟨by simp only; omega, by simp only; omega, by simp only; omega, by simp only; omega⟩
  · split
    · exact ⟨by simp only; omega, by simp only; omega, by simp only; omega, by simp only; omega⟩
    · split
      · exact ⟨by simp only; omega, by simp only; omega, by simp only; omega, by simp only; omega⟩
      · exact ⟨by omega, by omega, by omega, by omega⟩

theorem top3MinIndex_inv {array : List Int} (h : ∀ x ∈ array, x < 2147483647) :
    (top3MinIndex array).Inv array.length := by
  have hgen : ∀ (l : List Int), (∀ x ∈ l, x < 2147483647) → ∀ (k : Nat) (t : Top3), t.Inv k →
      ((l.zipIdx k).foldl (fun t p => t.step p.1 p.2) t).Inv (k + l.length) := fun l => by
    induction l with
    | nil => exact fun _ k t ht => ht
    | cons x l ih =>
      intro hl k t ht
      have := ih (fun y hy => hl y (List.mem_cons_of_mem _ hy)) (k + 1) _ (ht.step (hl x (List.mem_cons_self ..)))
      rw [List.zipIdx_cons, List.foldl_cons, List.length_cons]
      rwa [Nat.add_right_comm] at this
  have := hgen array h 0 {} ⟨by decide, by decide, by decide, by decide⟩
  rwa [Nat.zero_add] at this

theorem maxIndex_spec {array : List Int} (hne : array ≠ []) (h : ∀ x ∈ array, -2147483648 < x) :
    0 ≤ maxIndex array ∧ maxIndex array < array.length := by
  -- until a number is seen the maximum is below all numbers
  have hgen : ∀ (l : List Int), (∀ x ∈ l, -2147483648 < x) → ∀ (k : Nat) (m : Int × Int),
      (m.2 < k ∧ (0 ≤ m.2 ∨ m.1 = -2147483648 ∧ k = 0)) →
      let r := (l.zipIdx k).foldl (fun (m : Int × Int) p => if p.1 > m.1 then (p.1, (p.2 : Int)) else m) m
      r.2 < (k + l.length : Nat) ∧ (0 ≤ r.2 ∨ r.1 = -2147483648 ∧ k + l.length = 0) := fun l => by
    induction l with
    | nil => exact fun _ k m hm => hm
    | cons x l ih =>
      intro hl k m hm
      have hx := hl x (List.mem_cons_self ..)
      have := ih (fun y hy => hl y (List.mem_cons_of_mem _ hy)) (k + 1)
        (if x > m.1 then (x, (k : Int)) else m) (by split <;> omega)
      rw [List.zipIdx_cons, List.foldl_cons, List.length_cons]
      rwa [Nat.add_right_comm] at this
  have hpos := List.length_pos_of_ne_nil hne
  have := hgen array h 0 (-2147483648, -1) (by decide)
  simp only [Nat.zero_add] at this
  unfold maxIndex
  omega

/-! ## Step 2 -/

theorem goFind_spec {l : List Int} {val : Int} {start : Nat} (h : goContains l val start = true) :
    ∃ k : Nat, goFind l val start = k ∧ l[k]? = some val := by
  have hmem : val ∈ l.drop start := by simpa [goContains] using h
  unfold goFind
  cases hf : (l.drop start).findIdx? (· = val) with
  | none =>
    have := List.findIdx?_eq_none_iff.mp hf val hmem
    simp at this
  | some i =>
    obtain ⟨hi, hp, -⟩ := List.findIdx?_eq_some_iff_getElem.mp hf
    refine ⟨start + i, rfl, ?_⟩
    rw [← List.getElem?_drop, List.getElem?_eq_getElem hi]
    simpa using hp

theorem count_set_add {l : List Int} {k : Nat} {old : Int} (h : l[k]? = some old) (new x : Int) :
    (l.set k new).count x + (if old = x then 1 else 0) = l.count x + if new = x then 1 else 0 := by
  obtain ⟨hk, rfl⟩ := List.getElem?_eq_some_iff.mp h
  have hpos : 0 < l.count l[k] := List.count_pos_iff.mpr (List.getElem_mem hk)
  rw [List.count_set hk]
  simp only [beq_iff_eq]
  by_cases hx : l[k] = x
  · rw [hx] at hpos
    simp only [if_pos hx]
    omega
  · simp only [if_neg hx]
    omega

/-- What holds between the rounds. -/
structure Balance.Inv (hostCount pgSize pgCount : Nat) (b : Balance) : Prop where
  length : b.rows.length = pgCount
  rows : ∀ row ∈ b.rows, GoodRow hostCount pgSize row
  counts : Counts hostCount b.rows b.nums

/-- One PG moves from a host to one that it does not have. -/
structure Moved (b b' : Balance) (src dst : Nat) : Prop where
  row : ∃ (pgId : Nat) (pg : List Int) (k : Nat), b.rows[pgId]? = some pg ∧ pg[k]? = some (src : Int) ∧
    (dst : Int) ∉ pg ∧
    b'.rows = b.rows.set pgId (pg.set k dst)
  nums : ∃ x y : Int, b.nums[src]? = some x ∧ b.nums[dst]? = some y ∧
    b'.nums = (b.nums.set src (x - 1)).set dst (y + 1)

section Transfer

variable {hostCount pgSize pgCount : Nat} {b b' : Balance} {maxHost host : Int} {pg : List Int} {pgId : Nat}

theorem Moved.ne {src dst : Nat} (hm : Moved b b' src dst) : src ≠ dst := by
  obtain ⟨pgId, pg, k, -, hk, hnew, -⟩ := hm.row
  rintro rfl
  exact hnew (List.mem_of_getElem? hk)

theorem Moved.inv (hb : b.Inv hostCount pgSize pgCount) {src dst : Nat} (hm : Moved b b' src dst) :
    b'.Inv hostCount pgSize pgCount := by
  obtain ⟨pgId, pg, k, hpg, hkv, hnew, hrows⟩ := hm.row
  obtain ⟨x, y, hx, hy, hnums⟩ := hm.nums
  have hrow := hb.rows pg (List.mem_of_getElem? hpg)
  have hdst : dst < hostCount := hb.counts.length ▸ (List.getElem?_eq_some_iff.mp hy).1
  refine ⟨by rw [hrows, List.length_set, hb.length], fun row hr => ?_, ?_, fun h hh => ?_⟩
  · rw [hrows] at hr
    rcases List.mem_or_eq_of_mem_set hr with hr | rfl
    · exact hb.rows row hr
    · refine ⟨by rw [List.length_set, hrow.length], hrow.nodup.set hnew, fun z hz => ?_⟩
      rcases List.mem_or_eq_of_mem_set hz with hz | rfl
      · exact hrow.range z hz
      · omega
  · rw [hnums, List.length_set, List.length_set, hb.counts.length]
  · have hset : onHostCount _ _ + _ = onHostCount _ _ + _ := Core.count_flatten_set hpg (pg.set k dst) (h : Int)
    have hcount := count_set_add hkv dst h
    have hh' := hb.counts.count h hh
    have hne := hm.ne
    rw [← hrows] at hset
    simp only [hnums, List.getElem?_set, List.length_set, hb.counts.length]
    split_ifs <;> grind

/-- What a transfer to a host that is not in the PG does. -/
theorem moveHost_moved (hpg : b.rows[pgId]? = some pg) (hmax : goContains pg maxHost 1 = true) (hnew : host ∉ pg)
    {r : List Int × List Int} (h : moveHost pg b.nums (goFind pg maxHost 1) maxHost host = some r) :
    ∃ src dst : Nat, maxHost = src ∧ host = dst ∧ Moved b ⟨b.rows.set pgId r.1, r.2⟩ src dst := by
  obtain ⟨k, hk, hkv⟩ := goFind_spec hmax
  obtain ⟨pg', hpg', h⟩ := Option.bind_eq_some_iff.mp h
  obtain ⟨nums, hnums, h⟩ := Option.bind_eq_some_iff.mp h
  obtain ⟨nums', hnums', h⟩ := Option.bind_eq_some_iff.mp h
  obtain rfl := Option.some.inj h
  rw [hk] at hpg'
  obtain ⟨-, _, -, rfl⟩ := goUpdate_eq_some.mp hpg'
  obtain ⟨hsrc, x, hx, rfl⟩ := goUpdate_eq_some.mp hnums
  obtain ⟨hdst, y, hy, rfl⟩ := goUpdate_eq_some.mp hnums'
  obtain ⟨src, rfl⟩ := Int.eq_ofNat_of_zero_le hsrc
  obtain ⟨dst, rfl⟩ := Int.eq_ofNat_of_zero_le hdst
  simp only [Int.toNat_natCast] at hx hy
  have hne : src ≠ dst := fun he => hnew (he ▸ List.mem_of_getElem? hkv)
  rw [List.getElem?_set_ne hne] at hy
  exact ⟨src, dst, rfl, rfl, ⟨pgId, pg, k, hpg, hkv, hnew, rfl⟩, ⟨x, y, hx, hy, rfl⟩⟩

/-- A move to a host that is not in the PG. -/
theorem moveHost_inv (hb : b.Inv hostCount pgSize pgCount) (hpg : b.rows[pgId]? = some pg)
    (hmax : goContains pg maxHost 1 = true) (hhost : 0 ≤ host ∧ host < hostCount) (hnew : host ∉ pg) :
    ∃ pg' nums, moveHost pg b.nums (goFind pg maxHost 1) maxHost host = some (pg', nums) ∧
      Balance.Inv hostCount pgSize pgCount ⟨b.rows.set pgId pg', nums⟩ := by
  obtain ⟨k, hk, hkv⟩ := goFind_spec hmax
  have hklt : k < pg.length := (List.getElem?_eq_some_iff.mp hkv).1
  have hmaxr := (hb.rows pg (List.mem_of_getElem? hpg)).range maxHost (List.mem_of_getElem? hkv)
  obtain ⟨_, -, hup⟩ := goUpdate_of_lt (fun _ => host) (Int.natCast_nonneg k) (Int.ofNat_lt.mpr hklt)
  obtain ⟨x, hx, hup1⟩ := goUpdate_of_lt (· - 1) hmaxr.1 (hb.counts.length ▸ hmaxr.2)
  obtain ⟨y, hy, hup2⟩ := @goUpdate_of_lt _ (b.nums.set maxHost.toNat (x - 1)) host (· + 1) hhost.1
    (by rw [List.length_set, hb.counts.length]; exact hhost.2)
  have hmove : moveHost pg b.nums (goFind pg maxHost 1) maxHost host =
      some (pg.set k host, (b.nums.set maxHost.toNat (x - 1)).set host.toNat (y + 1)) := by
    rw [moveHost, hk, hup, hup1]
    exact congrArg (· >>= _) hup2
  obtain ⟨src, dst, -, -, hmoved⟩ := moveHost_moved hpg hmax hnew hmove
  exact ⟨_, _, hmove, hmoved.inv hb⟩

/-- The three candidates are hosts. -/
def Top3.Hosts (hostCount : Nat) (t : Top3) : Prop :=
  (0 ≤ t.minIndex ∧ t.minIndex < hostCount) ∧ (0 ≤ t.secondMinIndex ∧ t.secondMinIndex < hostCount) ∧
    (0 ≤ t.thirdMinIndex ∧ t.thirdMinIndex < hostCount)

theorem transferOne_inv {t : Top3} (hb : b.Inv hostCount pgSize pgCount) (hpg : b.rows[pgId]? = some pg)
    (hmax : goContains pg maxHost 1 = true) (ht : t.Hosts hostCount) :
    ∃ r, transferOne pg maxHost t b.nums = some r ∧
      ∀ p ∈ r, Balance.Inv hostCount pgSize pgCount ⟨b.rows.set pgId p.1, p.2⟩ := by
  have move : ∀ {host : Int}, 0 ≤ host ∧ host < hostCount → (!goContains pg host 0) = true →
      ∃ r, (moveHost pg b.nums (goFind pg maxHost 1) maxHost host).map some = some r ∧
        ∀ p ∈ r, Balance.Inv hostCount pgSize pgCount ⟨b.rows.set pgId p.1, p.2⟩ := fun hhost hnew => by
    obtain ⟨pg', nums, hm, hinv⟩ := moveHost_inv hb hpg hmax hhost (by simpa [goContains] using hnew)
    refine ⟨some (pg', nums), by rw [hm, Option.map_some], fun p hp => ?_⟩
    obtain rfl := Option.some.inj hp
    exact hinv
  unfold transferOne
  split
  · next hnew => exact move ht.1 hnew
  · split
    · next hnew => exact move ht.2.1 hnew
    · split
      · next hnew => exact move ht.2.2 hnew
      · exact ⟨none, rfl, by simp⟩

theorem transferFirst_inv {t : Top3} (hb : b.Inv hostCount pgSize pgCount)
    (ht : ∀ pg ∈ b.rows, goContains pg maxHost 1 = true → t.Hosts hostCount) :
    ∀ {ids : List Nat}, (∀ id ∈ ids, id < pgCount) →
      ∃ r, transferFirst b maxHost t ids = some r ∧ ∀ b' ∈ r, b'.Inv hostCount pgSize pgCount
  | [], _ => ⟨none, rfl, by simp⟩
  | pgId :: ids, hids => by
    obtain ⟨rest, hrest, hinv⟩ := transferFirst_inv hb ht fun id hid => hids id (List.mem_cons_of_mem _ hid)
    have hlt : pgId < b.rows.length := hb.length ▸ hids pgId (List.mem_cons_self ..)
    have hpg := List.getElem?_eq_getElem hlt
    rw [transferFirst, hpg, Option.bind_eq_bind, Option.bind_some]
    split
    · next hmax =>
      obtain ⟨r, hr, hmoved⟩ := transferOne_inv hb hpg hmax (ht _ (List.getElem_mem hlt) hmax)
      rw [hr, Option.bind_eq_bind, Option.bind_some]
      cases r with
      | none => exact ⟨rest, hrest, hinv⟩
      | some p =>
        refine ⟨some ⟨b.rows.set pgId p.1, p.2⟩, rfl, fun b' hb' => ?_⟩
        obtain rfl := Option.some.inj hb'
        exact hmoved p rfl
    · exact ⟨rest, hrest, hinv⟩

/-- With one or two hosts that have a second place in some PG, all hosts
have the same number of PGs. -/
theorem three_hosts (hb : b.Inv hostCount pgSize pgCount) (hsize : pgSize ≤ hostCount) (hpg : pg ∈ b.rows)
    (hmax : goContains pg maxHost 1 = true) {h : Nat} (hh : h < hostCount)
    (hne : onHostCount b.rows h ≠ pgCount * pgSize / hostCount) : 3 ≤ hostCount := by
  have hlen : 1 < pg.length := by
    by_contra hle
    rw [goContains, List.drop_eq_nil_of_le (by omega)] at hmax
    simp at hmax
  rw [(hb.rows pg hpg).length] at hlen
  by_contra hlt
  obtain rfl : pgSize = hostCount := by omega
  rw [onHostCount_full hb.rows hh, hb.length, Nat.mul_div_cancel _ (by omega)] at hne
  exact hne rfl

theorem balanceRound_inv {onHost : Int → List Nat} (hb : b.Inv hostCount pgSize pgCount) (hh : 0 < hostCount)
    (hsize : pgSize ≤ hostCount) (hcount : pgCount < 2147483647) (hon : ∀ h, ∀ id ∈ onHost h, id < pgCount) :
    ∃ r, balanceRound ((pgCount * pgSize / hostCount : Nat)) onHost b = some r ∧
      ∀ b' ∈ r, b'.Inv hostCount pgSize pgCount := by
  have hnum : ∀ x ∈ b.nums, 0 ≤ x ∧ x < 2147483647 := fun x hx => by
    obtain ⟨i, hi, rfl⟩ := List.getElem_of_mem hx
    have := hb.counts.count i (hb.counts.length ▸ hi)
    rw [List.getElem?_eq_getElem hi, Option.some.injEq] at this
    have hle := onHostCount_le hb.rows i
    have := hb.length
    omega
  have ht := top3MinIndex_inv fun x hx => (hnum x hx).2
  have hm := @maxIndex_spec b.nums (List.ne_nil_of_length_pos (hb.counts.length ▸ hh)) fun x hx => by
    have := hnum x hx
    omega
  rw [hb.counts.length] at ht hm
  obtain ⟨minNum, hmin, hmin'⟩ := @goIndex_of_lt _ b.nums (top3MinIndex b.nums).minIndex (ht.first.2 hh)
    (hb.counts.length ▸ ht.lt.1)
  obtain ⟨maxNum, hmax, hmax'⟩ := @goIndex_of_lt _ b.nums (maxIndex b.nums) hm.1 (hb.counts.length ▸ hm.2)
  rw [hb.counts.count _ (by have := ht.lt.1; omega)] at hmin'
  rw [hb.counts.count _ (by omega)] at hmax'
  simp only [balanceRound, hmin, hmax, Option.bind_eq_bind, Option.bind_some]
  split
  · next hcond =>
    refine transferFirst_inv hb (fun pg hpg hc => ?_) (hon _)
    have h3 : 3 ≤ hostCount := by
      rcases hcond with hlt | hgt
      · exact @three_hosts _ _ _ _ _ _ hb hsize hpg hc (top3MinIndex b.nums).minIndex.toNat (by have := ht.lt.1; omega)
          (by have := Option.some.inj hmin'; omega)
      · exact @three_hosts _ _ _ _ _ _ hb hsize hpg hc (maxIndex b.nums).toNat (by omega)
          (by have := Option.some.inj hmax'; omega)
    exact ⟨⟨ht.first.2 hh, ht.lt.1⟩, ⟨ht.second.2 (by omega), ht.lt.2.1⟩, ⟨ht.third.2 h3, ht.lt.2.2⟩⟩
  · exact ⟨none, rfl, by simp⟩

theorem balance_inv {onHost : Int → List Nat} (hh : 0 < hostCount) (hsize : pgSize ≤ hostCount)
    (hcount : pgCount < 2147483647) (hon : ∀ h, ∀ id ∈ onHost h, id < pgCount) :
    ∀ (loops : Nat) {b : Balance}, b.Inv hostCount pgSize pgCount →
      ∃ b', balance ((pgCount * pgSize / hostCount : Nat)) onHost loops b = some b' ∧ b'.Inv hostCount pgSize pgCount
  | 0, b, hb => ⟨b, rfl, hb⟩
  | loops + 1, b, hb => by
    obtain ⟨r, hr, hinv⟩ := balanceRound_inv hb hh hsize hcount hon
    rw [balance, hr, Option.bind_eq_bind, Option.bind_some]
    cases r with
    | none => exact ⟨b, rfl, hb⟩
    | some b' => exact balance_inv hh hsize hcount hon loops (hinv b' rfl)

theorem pgOnHost_lt {rows : List (List Int)} {h : Int} {id : Nat} (hid : id ∈ pgOnHost rows h) : id < rows.length := by
  obtain ⟨⟨row, i⟩, hp, hid⟩ := List.mem_flatMap.mp hid
  obtain ⟨_, -, rfl⟩ := List.mem_map.mp hid
  obtain ⟨hlt, -⟩ := List.mem_zipIdx' hp
  exact hlt

end Transfer

/-! ## Step 4 -/

/-- What `takeCore` leaves as it is. -/
def OsdCore.key (o : OsdCore) : Nat × Nat := (o.osdid, o.coreid)

theorem sortOsdList_perm (osd : OsdCore) (behind : List OsdCore) : (sortOsdList osd behind).Perm (osd :: behind) := by
  unfold sortOsdList
  exact List.perm_middle.trans (by rw [List.takeWhile_append_dropWhile])

theorem takeCore_spec {p : OsdCore → Bool} : ∀ {lst : List OsdCore}, (∃ o ∈ lst, p o) →
    ∃ osd lst', takeCore p lst = some (osd, lst') ∧ osd ∈ lst ∧ (lst'.map OsdCore.key).Perm (lst.map OsdCore.key)
  | [], h => by simp at h
  | o :: lst, h => by
    rw [takeCore]
    split
    · exact ⟨o, _, rfl, List.mem_cons_self .., (sortOsdList_perm _ lst).map _⟩
    · next hno =>
      obtain ⟨x, hx, hpx⟩ := h
      have hx : x ∈ lst := by
        rcases List.mem_cons.mp hx with rfl | hx
        · exact absurd hpx hno
        · exact hx
      obtain ⟨osd, lst', ht, hmem, hperm⟩ := takeCore_spec ⟨x, hx, hpx⟩
      exact ⟨osd, o :: lst', by rw [ht, Option.map_some], List.mem_cons_of_mem _ hmem, hperm.cons _⟩

/-- A list of cores of a failure domain, with each number of a core. -/
structure Cores (coreNum : Nat) (d : DomainNode) (lst : List OsdCore) : Prop where
  osd : ∀ o ∈ lst, d.Has o.osdid ∧ o.coreid < coreNum
  core : ∀ c < coreNum, ∃ o ∈ lst, o.coreid = c

section Cores

variable {coreNum : Nat} {d : DomainNode} {lst : List OsdCore}

theorem osdCores_cores (hd : ∃ t ∈ d.childNode, t.coreNum = coreNum) : Cores coreNum d (osdCores coreNum d) := by
  obtain ⟨t, ht, htc⟩ := hd
  refine ⟨fun o ho => ?_, fun c hc => ⟨⟨t.osdid, c, 0⟩, ?_, rfl⟩⟩
  · obtain ⟨c, hc, ho⟩ := List.mem_flatMap.mp ho
    obtain ⟨t, ht, rfl⟩ := List.mem_map.mp ho
    exact ⟨⟨t, (List.mem_filter.mp ht).1, rfl⟩, List.mem_range.mp hc⟩
  · refine List.mem_flatMap.mpr ⟨c, List.mem_range.mpr hc, List.mem_map.mpr ⟨t, ?_, rfl⟩⟩
    exact List.mem_filter.mpr ⟨ht, by simpa using htc⟩

theorem Cores.of_perm (h : Cores coreNum d lst) {lst' : List OsdCore}
    (hp : (lst'.map OsdCore.key).Perm (lst.map OsdCore.key)) : Cores coreNum d lst' := by
  have hkey : ∀ {l l' : List OsdCore}, (l'.map OsdCore.key).Perm (l.map OsdCore.key) →
      ∀ o ∈ l', ∃ o' ∈ l, o'.osdid = o.osdid ∧ o'.coreid = o.coreid := fun hp o ho => by
    obtain ⟨o', ho', hk⟩ := List.mem_map.mp (hp.subset (List.mem_map_of_mem ho))
    exact ⟨o', ho', congrArg Prod.fst hk, congrArg Prod.snd hk⟩
  refine ⟨fun o ho => ?_, fun c hc => ?_⟩
  · obtain ⟨o', ho', hid, hcore⟩ := hkey hp o ho
    exact hid ▸ hcore ▸ h.osd o' ho'
  · obtain ⟨o, ho, rfl⟩ := h.core c hc
    obtain ⟨o', ho', -, hcore⟩ := hkey hp.symm o ho
    exact ⟨o', ho', hcore⟩

end Cores

/-- `host_map` -/
structure HostMap (coreNum : Nat) (tree : List DomainNode) (hostMap : List (List OsdCore)) : Prop where
  length : hostMap.length = tree.length
  cores : ∀ (i : Nat) d lst, tree[i]? = some d → hostMap[i]? = some lst → Cores coreNum d lst

/-- The OSD is in the domain with this index. -/
def InDomain (tree : List DomainNode) (host : Int) (osd : Nat) : Prop :=
  0 ≤ host ∧ ∃ d, tree[host.toNat]? = some d ∧ d.Has osd

section Place

variable {coreNum : Nat} {tree : List DomainNode} {hostMap : List (List OsdCore)}

theorem HostMap.get (hm : HostMap coreNum tree hostMap) {host : Int} (h0 : 0 ≤ host) (h : host < tree.length) :
    ∃ d lst, tree[host.toNat]? = some d ∧ goIndex hostMap host = some lst ∧ Cores coreNum d lst := by
  obtain ⟨d, -, hd⟩ := @goIndex_of_lt _ tree host h0 h
  obtain ⟨lst, hl, hl'⟩ := @goIndex_of_lt _ hostMap host h0 (hm.length ▸ h)
  exact ⟨d, lst, hd, hl, hm.cores _ _ _ hd hl'⟩

theorem HostMap.set (hm : HostMap coreNum tree hostMap) {i : Nat} {d : DomainNode} {lst : List OsdCore}
    (hd : tree[i]? = some d) (hl : Cores coreNum d lst) : HostMap coreNum tree (hostMap.set i lst) := by
  refine ⟨by rw [List.length_set, hm.length], fun k e l he hk => ?_⟩
  rw [List.getElem?_set] at hk
  split at hk
  · next heq =>
    subst heq
    obtain rfl : d = e := Option.some.inj (hd.symm.trans he)
    split at hk
    · exact Option.some.inj hk ▸ hl
    · cases hk
  · exact hm.cores k e l he hk

theorem leastUsed_spec (hm : HostMap coreNum tree hostMap) (hc : 1 ≤ coreNum) {row : List Int}
    (hrow : ∀ h ∈ row, 0 ≤ h ∧ h < tree.length) :
    ∃ least, leastUsed hostMap row = some least ∧ least.2 < coreNum := by
  obtain ⟨fronts, hf, hcore⟩ := @mapM_of_forall _ _ (fun h => (goIndex hostMap h).bind List.head?)
    (fun o : OsdCore => o.coreid < coreNum) row fun h hh => by
      obtain ⟨d, lst, -, hl, hcs⟩ := hm.get (hrow h hh).1 (hrow h hh).2
      obtain ⟨o, ho, -⟩ := hcs.core 0 hc
      cases lst with
      | nil => simp at ho
      | cons x lst => exact ⟨x, by rw [hl]; rfl, (hcs.osd x (List.mem_cons_self ..)).2⟩
  have hfold : ∀ (l : List (OsdCore × Nat)) (m : Nat × Nat × Nat), (∀ p ∈ l, p.1.coreid < coreNum) → m.2.2 < coreNum →
      (l.foldl (fun (m : Nat × Nat × Nat) p => if p.1.pgnum < m.1 then (p.1.pgnum, p.2, p.1.coreid) else m) m).2.2
        < coreNum := fun l => by
    induction l with
    | nil => exact fun _ _ hm => hm
    | cons p l ih =>
      intro m hl hm
      refine ih _ (fun q hq => hl q (List.mem_cons_of_mem _ hq)) ?_
      dsimp only
      split
      · exact hl p (List.mem_cons_self ..)
      · exact hm
  refine ⟨_, ?_, hfold fronts.zipIdx (2 ^ 63 - 1, 0, 0) (fun p hp => hcore _ (List.fst_mem_of_mem_zipIdx hp)) hc⟩
  rw [leastUsed]
  exact congrArg (· >>= _) hf

theorem placeOsds_spec (index : Nat) {coreId : Nat} (hc : coreId < coreNum) : ∀ {row : List Int} (j : Nat)
    {hostMap : List (List OsdCore)}, HostMap coreNum tree hostMap → (∀ h ∈ row, 0 ≤ h ∧ h < tree.length) →
      ∃ osds hostMap', placeOsds index coreId row j hostMap = some (osds, hostMap') ∧ HostMap coreNum tree hostMap' ∧
        List.Forall₂ (InDomain tree) row (osds.map (·.osdid))
  | [], _, hostMap, hm, _ => ⟨[], hostMap, rfl, hm, .nil⟩
  | host :: row, j, hostMap, hm, hrow => by
    have hh := hrow host (List.mem_cons_self ..)
    obtain ⟨d, lst, hd, hl, hcs⟩ := hm.get hh.1 hh.2
    obtain ⟨o, ho, hoc⟩ := hcs.core coreId hc
    obtain ⟨osd, lst', ht, hmem, hperm⟩ := @takeCore_spec (fun o => j = index || o.coreid = coreId) lst
      ⟨o, ho, by simp [hoc]⟩
    obtain ⟨_, -, hup⟩ := @goUpdate_of_lt _ hostMap host (fun _ => lst') hh.1 (hm.length ▸ hh.2)
    obtain ⟨osds, hostMap', hp, hm', hall⟩ := placeOsds_spec index hc (j + 1) (hm.set hd (hcs.of_perm hperm))
      fun h hmem => hrow h (List.mem_cons_of_mem _ hmem)
    refine ⟨osd :: osds, hostMap', ?_, hm', .cons ⟨hh.1, d, hd, (hcs.osd osd hmem).1⟩ hall⟩
    simp only [placeOsds, hl, ht, hup, hp, Option.bind_eq_bind, Option.bind_some, Option.pure_def]

/-- A PG of `pgSize` OSDs in different failure domains. -/
structure Placed (tree : List DomainNode) (pgSize : Nat) (pg : PGConfig) : Prop where
  length : pg.osdList.length = pgSize
  nodup : pg.osdList.Nodup
  member : ∀ osd ∈ pg.osdList, ∃ d ∈ tree, d.Has osd
  apart : pg.osdList.Pairwise fun a b => ∀ d ∈ tree, d.Has a → ¬ d.Has b

theorem forall₂_mem_right {α β : Type*} {R : α → β → Prop} {l : List α} {m : List β} (h : List.Forall₂ R l m) {y : β}
    (hy : y ∈ m) : ∃ a ∈ l, R a y := by
  induction h with
  | nil => simp at hy
  | cons hab _ ih =>
    rcases List.mem_cons.mp hy with rfl | hy
    · exact ⟨_, List.mem_cons_self .., hab⟩
    · obtain ⟨a, ha, hay⟩ := ih hy
      exact ⟨a, List.mem_cons_of_mem _ ha, hay⟩

theorem pairwise_of_forall₂ {α β : Type*} {R : α → β → Prop} {S : β → β → Prop}
    (hS : ∀ {a b x y}, a ≠ b → R a x → R b y → S x y) {l : List α} {m : List β} (h : List.Forall₂ R l m)
    (hl : l.Nodup) : m.Pairwise S := by
  induction h with
  | nil => exact .nil
  | @cons a x l m hax hlm ih =>
    rw [List.nodup_cons] at hl
    refine .cons (fun y hy => ?_) (ih hl.2)
    obtain ⟨b, hb, hby⟩ := forall₂_mem_right hlm hy
    exact hS (fun he : a = b => hl.1 (he ▸ hb)) hax hby

theorem placed_of_inDomain (hdis : DisjointDomains tree) {pgSize : Nat} {row : List Int}
    (hrow : GoodRow tree.length pgSize row)
    {pg : PGConfig} (hall : List.Forall₂ (InDomain tree) row pg.osdList) : Placed tree pgSize pg := by
  have happart : pg.osdList.Pairwise fun a b => ∀ d ∈ tree, d.Has a → ¬ d.Has b := by
    refine pairwise_of_forall₂ ?_ hall hrow.nodup
    rintro a b x y hab ⟨ha, da, hda, hdx⟩ ⟨hb, db, hdb, hdy⟩ d hd hx hy
    obtain ⟨k, hk⟩ := List.mem_iff_getElem?.mp hd
    have hka := hdis.eq hk hda hx hdx
    have hkb := hdis.eq hk hdb hy hdy
    omega
  have hmem : ∀ osd ∈ pg.osdList, ∃ d ∈ tree, d.Has osd := fun osd hosd => by
    obtain ⟨h, -, -, d, hd, hin⟩ := forall₂_mem_right hall hosd
    exact ⟨d, List.mem_of_getElem? hd, hin⟩
  refine ⟨by rw [← hall.length_eq, hrow.length], ?_, hmem, happart⟩
  refine happart.imp_of_mem fun {a b} ha _ hab => ?_
  rintro rfl
  obtain ⟨d, hd, hin⟩ := hmem a ha
  exact hab d hd hin hin

theorem withVersion_osdList (osds : OsdInfos) (poolPgSize : Nat) (old : Option PGConfig) (pg : PGConfig) :
    (withVersion osds poolPgSize old pg).osdList = pg.osdList := by
  unfold withVersion
  split <;> rfl

theorem placePgs_spec (osds : OsdInfos) (poolPgSize : Nat) (old : Nat → Option PGConfig) (hdis : DisjointDomains tree)
    (hc : 1 ≤ coreNum) {pgSize : Nat} : ∀ {rows : List (List Int)} (i : Nat) {hostMap : List (List OsdCore)},
      HostMap coreNum tree hostMap → (∀ row ∈ rows, GoodRow tree.length pgSize row) →
        ∃ pgs, placePgs osds poolPgSize old rows i hostMap = some pgs ∧ pgs.length = rows.length ∧
          ∀ pg ∈ pgs, Placed tree pgSize pg
  | [], _, _, _, _ => ⟨[], rfl, rfl, by simp⟩
  | row :: rows, i, hostMap, hm, hrows => by
    have hrow := hrows row (List.mem_cons_self ..)
    obtain ⟨least, hl, hcore⟩ := leastUsed_spec hm hc hrow.range
    obtain ⟨members, hostMap', hp, hm', hall⟩ := placeOsds_spec least.1 hcore 0 hm hrow.range
    obtain ⟨pgs, hpgs, hlen, hplaced⟩ := placePgs_spec osds poolPgSize old hdis hc (i + 1) hm'
      fun r hr => hrows r (List.mem_cons_of_mem _ hr)
    simp only [placePgs, hl, hp, hpgs, Option.bind_eq_bind, Option.bind_some, Option.pure_def]
    refine ⟨_, rfl, congrArg (· + 1) hlen, List.forall_mem_cons.mpr ⟨?_, hplaced⟩⟩
    exact placed_of_inDomain hdis hrow (by rw [withVersion_osdList]; exact hall)

end Place

/-! ## The placement -/

/-- `SimpleInitial` gives each PG its OSDs. -/
theorem initial_placement (cfg : OptimizeCfg) (poolPgSize coreNum : Nat) (osds : OsdInfos) (perm : List Nat)
    (draws : Nat → Nat → List Nat) (hsize : 1 ≤ cfg.pgSize ∧ cfg.pgSize ≤ cfg.osdTree.length)
    (hdis : DisjointDomains cfg.osdTree) (hcore : 1 ≤ coreNum)
    (hosd : ∀ d ∈ cfg.osdTree, ∃ t ∈ d.childNode, t.coreNum = coreNum) (hcount : cfg.pgCount < 2147483647)
    (hdraws : Draws cfg.osdTree.length perm draws)
    (hends : (chooseRows cfg.osdTree.length cfg.pgCount cfg.pgSize perm draws).isSome) :
    ∃ pgs, simpleInitial cfg poolPgSize coreNum osds perm draws = .done pgs ∧ pgs.length = cfg.pgCount ∧
      ∀ pg ∈ pgs, Placed cfg.osdTree cfg.pgSize pg := by
  have hh : 0 < cfg.osdTree.length := by omega
  obtain ⟨rows, hrows⟩ := Option.isSome_iff_exists.mp hends
  obtain ⟨hlen, hgood⟩ := chooseRows_good hh hsize.1 hdraws hrows
  obtain ⟨nums, hnums, hcounts⟩ := pgNumOnHost_counts hgood
  obtain ⟨b, hb, hinv⟩ := @balance_inv _ _ _ (pgOnHost rows) hh hsize.2 hcount
    (fun h id hid => hlen ▸ pgOnHost_lt hid) cfg.pgCount ⟨rows, nums⟩ ⟨hlen, hgood, hcounts⟩
  have hm : HostMap coreNum cfg.osdTree (cfg.osdTree.map (osdCores coreNum)) := by
    refine ⟨List.length_map .., fun i d lst hd hl => ?_⟩
    rw [List.getElem?_map, hd, Option.map_some, Option.some.injEq] at hl
    exact hl ▸ osdCores_cores (hosd d (List.mem_of_getElem? hd))
  obtain ⟨pgs, hpgs, hplen, hplaced⟩ := placePgs_spec osds poolPgSize cfg.previousPGList hdis hcore 0 hm hinv.rows
  refine ⟨pgs, ?_, hplen.trans hinv.length, hplaced⟩
  have hne : ¬ (cfg.osdTree.length = 0 ∨ (cfg.osdTree.all (·.childNode.isEmpty)) ∨
      cfg.osdTree.length * 2 < cfg.pgSize) := by
    rintro (h0 | hall | hlt)
    · omega
    · obtain ⟨d, hd⟩ := List.exists_mem_of_length_pos hh
      obtain ⟨t, ht, -⟩ := hosd d hd
      have := List.all_eq_true.mp hall d hd
      rw [List.isEmpty_iff.mp this] at ht
      simp at ht
    · omega
  rw [simpleInitial, if_neg hne, if_neg (by omega), if_neg (by omega), hrows]
  simp only [hnums, hb, hpgs, Option.bind_eq_bind, Option.bind_some]

/-- Three hosts with one OSD each, and two PGs of two OSDs. -/
def threeHosts : OptimizeCfg where
  osdTree := [⟨[1], [⟨1, 1⟩]⟩, ⟨[2], [⟨2, 1⟩]⟩, ⟨[3], [⟨3, 1⟩]⟩]
  pgCount := 2
  pgSize := 2
  previousPGList := fun _ => none

theorem initial_placement_three_hosts :
    ∃ pgs, simpleInitial threeHosts 2 1 (fun _ => none) [0, 1, 2] (fun _ _ => [0, 2]) = .done pgs ∧
      pgs.length = threeHosts.pgCount ∧ ∀ pg ∈ pgs, Placed threeHosts.osdTree threeHosts.pgSize pg :=
  initial_placement threeHosts 2 1 _ _ _ (by decide) (by
      have hone : ∀ (n : UInt8) (a osd : Nat), DomainNode.Has ⟨[n], [⟨a, 1⟩]⟩ osd ↔ a = osd := fun n a osd => by
        simp [DomainNode.Has]
      simp only [DisjointDomains, threeHosts, List.pairwise_cons, List.forall_mem_cons, hone]
      simp) (by decide) (by decide) (by decide) ⟨.refl _, fun _ _ => by decide⟩ (by decide)

/-- One host with one OSD, and PGs of one OSD. -/
def oneHost (pgCount : Nat) : OptimizeCfg where
  osdTree := [⟨[1], [⟨1, 1⟩]⟩]
  pgCount := pgCount
  pgSize := 1
  previousPGList := fun _ => none

/-- From the initial value of `top3_min_index` on it has no index for
`pg_num_on_host`. -/
theorem oneHost_panics {n : Nat} (hn : 2147483647 ≤ n) :
    simpleInitial (oneHost n) 1 1 (fun _ => none) [0] (fun _ _ => []) = .panic := by
  obtain ⟨rows, hrows, -⟩ := @mapM_of_forall (Nat × Nat) (List Int) (fun p => chooseRow p.1 (fun _ => []) (1 - 1))
    (fun _ => True) (getRandIndex 1 n [0]).zipIdx fun p _ => ⟨[p.1], rfl, trivial⟩
  obtain ⟨hlen, hgood⟩ := @chooseRows_good 1 n 1 [0] (fun _ _ => []) (by decide) (by decide)
    ⟨.refl _, by simp⟩ rows hrows
  obtain ⟨nums, hnums, hcounts⟩ := pgNumOnHost_counts hgood
  -- the only host has all PGs
  obtain rfl : nums = [(n : Int)] := by
    have hzero := hcounts.count 0 (by decide)
    rw [onHostCount_full hgood (by decide), hlen] at hzero
    obtain ⟨x, rfl⟩ := List.length_eq_one_iff.mp hcounts.length
    simpa using hzero
  have hround : ∀ pgPerHost onHost, balanceRound pgPerHost onHost ⟨rows, [(n : Int)]⟩ = none := fun _ _ => by
    have hnot : ¬ (n : Int) < 2147483647 := by omega
    simp [balanceRound, top3MinIndex, Top3.step, hnot, goIndex]
  have hbalance : ∀ pgPerHost onHost, balance pgPerHost onHost n ⟨rows, [(n : Int)]⟩ = none := fun _ _ => by
    obtain ⟨loops, rfl⟩ : ∃ loops, n = loops + 1 := ⟨n - 1, by omega⟩
    rw [balance, hround]
    rfl
  have hchoose : chooseRows 1 n 1 [0] (fun _ _ => []) = some rows := hrows
  simp [simpleInitial, oneHost, hchoose, hnums, hbalance]

/-- As many PGs as the initial value of `top3_min_index`. -/
theorem most_pgs_panic : simpleInitial (oneHost 2147483647) 1 1 (fun _ => none) [0] (fun _ _ => []) = .panic :=
  oneHost_panics (Nat.le_refl _)

end Fastblock.L5
