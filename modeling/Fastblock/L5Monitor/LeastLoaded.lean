import Mathlib.Data.List.Perm.Subperm
import Fastblock.L5Monitor.Redistribute

/-!
# The failure domains of a replacement

`calculatePgOsds` (monitor/osd/calculator.go:1032-1102) is meant to choose
a domain with fewest PGs in each round. The search `getMinValue` (982-995)
keeps the number of the first domain it sees and compares all others with
that one, so it ends with the last domain that has fewer PGs than the
first one. Whatever the orders of its iterations are, this is a domain
with fewest PGs exactly as long as the numbers of PGs of the candidates
have at most two values (`least_loaded_iff`).
-/
namespace Fastblock.L5

open Fastblock.Core (decimal)

/-! ## One choice -/

theorem foldl_minKey (minVal : Int) (key : Bytes) (l : PgNums) :
    let r := l.foldl (fun minKey p => if p.2 < minVal then p.1 else minKey) key
    (r = key ∧ ∀ p ∈ l, ¬ p.2 < minVal) ∨ ∃ p ∈ l, p.2 < minVal ∧ r = p.1 := by
  induction l generalizing key with
  | nil => exact .inl ⟨rfl, by simp⟩
  | cons p l ih =>
    rw [List.foldl_cons]
    by_cases hp : p.2 < minVal
    · rw [if_pos hp]
      rcases ih p.1 with ⟨hr, -⟩ | ⟨q, hq, hlt, hr⟩
      · exact .inr ⟨p, List.mem_cons_self .., hp, hr⟩
      · exact .inr ⟨q, List.mem_cons_of_mem _ hq, hlt, hr⟩
    · rw [if_neg hp]
      rcases ih key with ⟨hr, hall⟩ | ⟨q, hq, hlt, hr⟩
      · exact .inl ⟨hr, List.forall_mem_cons.mpr ⟨hp, hall⟩⟩
      · exact .inr ⟨q, List.mem_cons_of_mem _ hq, hlt, hr⟩

/-- Every iteration begins with one key and ends with the other. -/
def betweenOrder (front back : Bytes) : MapOrder (Bytes × Int) where
  order := fun _ l =>
    let others := l.filter fun p => !decide (p.1 = front)
    l.filter (fun p => p.1 = front) ++
      (others.filter (fun p => p.1 ≠ back) ++ others.filter fun p => !decide (p.1 ≠ back))
  perm := fun _ l => (List.Perm.append_left _ (List.filter_append_perm (fun p => p.1 ≠ back) _)).trans
    (List.filter_append_perm (fun p => p.1 = front) l)

/-- The key at the end, if its value is below the one of the key in
front. -/
theorem getMinValue_between {m : PgNums} {front back : Bytes} {x y : Int} (hx : (front, x) ∈ m) (hy : (back, y) ∈ m)
    (hfront : ∀ p ∈ m, p.1 = front → p = (front, x)) (hback : ∀ p ∈ m, p.1 = back → p = (back, y)) (hlt : y < x)
    (i j : Nat) : getMinValue ((betweenOrder front back).order i m) ((betweenOrder front back).order j m) = back := by
  have hne : back ≠ front := fun he => by
    have := congrArg Prod.snd (hfront _ hy he)
    simp only at this
    omega
  obtain ⟨rest, hrest⟩ : ∃ rest, m.filter (fun p => p.1 = front) = (front, x) :: rest := by
    have hin : (front, x) ∈ m.filter fun p => p.1 = front := List.mem_filter.mpr ⟨hx, by simp⟩
    cases hl : m.filter fun p => p.1 = front with
    | nil => simp [hl] at hin
    | cons p rest =>
      obtain ⟨hp, hkey⟩ := List.mem_filter.mp (hl ▸ List.mem_cons_self (a := p))
      exact ⟨rest, by rw [hfront p hp (by simpa using hkey)]⟩
  -- the second iteration ends with the entry of `back`
  have hlast : ∀ (l : PgNums) (key : Bytes), l ≠ [] → (∀ p ∈ l, p = (back, y)) →
      l.foldl (fun minKey p => if p.2 < x then p.1 else minKey) key = back := fun l => by
    induction l with
    | nil => exact fun _ h => absurd rfl h
    | cons p l ih =>
      intro key _ hall
      rw [List.foldl_cons, hall p (List.mem_cons_self ..), if_pos hlt]
      cases l with
      | nil => rfl
      | cons q l => exact ih _ (List.cons_ne_nil q l) fun p hp => hall p (List.mem_cons_of_mem _ hp)
  simp only [betweenOrder, hrest, List.cons_append, getMinValue, List.foldl_cons, List.foldl_append]
  refine hlast _ _ (List.ne_nil_of_mem (a := (back, y)) ?_) fun p hp => ?_
  · exact List.mem_filter.mpr ⟨List.mem_filter.mpr ⟨hy, by simpa using hne⟩, by simp⟩
  · obtain ⟨hp, hkey⟩ := List.mem_filter.mp hp
    exact hback p (List.mem_filter.mp hp).1 (by simpa using hkey)

/-- No candidate has fewer PGs than the one with this key. -/
def Least (m : PgNums) (key : Bytes) : Prop := ∀ p ∈ m, p.1 = key → ∀ q ∈ m, p.2 ≤ q.2

/-- The numbers of PGs of the candidates have at most two values. -/
def TwoValues (m : PgNums) : Prop := ∀ p ∈ m, ∀ q ∈ m, ∀ r ∈ m, p.2 < q.2 → ¬ q.2 < r.2

section Choice

variable {m first second : PgNums}

theorem eq_of_key (hn : (m.map Prod.fst).Nodup) {p q : Bytes × Int} (hp : p ∈ m) (hq : q ∈ m) (h : p.1 = q.1) :
    p = q :=
  List.inj_on_of_nodup_map hn hp hq h

/-- With at most two values every pair of orders gives a smallest one. -/
theorem getMinValue_least (hn : (m.map Prod.fst).Nodup) (htwo : TwoValues m) (hfirst : first.Perm m)
    (hsecond : second.Perm m) : Least m (getMinValue first second) := by
  intro p hp hkey q hq
  cases first with
  | nil =>
    rw [hfirst.symm.eq_nil] at hp
    simp at hp
  | cons f rest =>
    have hf : f ∈ m := hfirst.mem_iff.mp (List.mem_cons_self ..)
    rcases foldl_minKey f.2 f.1 second with ⟨hr, hall⟩ | ⟨k, hk, hlt, hr⟩
    · obtain rfl : p = f := eq_of_key hn hp hf (hkey.trans hr)
      exact Int.not_lt.mp (hall q (hsecond.mem_iff.mpr hq))
    · have hkm := hsecond.mem_iff.mp hk
      obtain rfl : p = k := eq_of_key hn hp hkm (hkey.trans hr)
      exact Int.not_lt.mp fun hqp => htwo q hq p hp f hf hqp hlt

theorem not_least_between (hn : (m.map Prod.fst).Nodup) {p q r : Bytes × Int} (hp : p ∈ m) (hq : q ∈ m) (hr : r ∈ m)
    (hpq : p.2 < q.2) (hqr : q.2 < r.2) (i j : Nat) :
    ¬ Least m (getMinValue ((betweenOrder r.1 q.1).order i m) ((betweenOrder r.1 q.1).order j m)) := by
  have hpick := getMinValue_between hr hq (fun x hx h => eq_of_key hn hx hr h) (fun x hx h => eq_of_key hn hx hq h)
    hqr i j
  intro hleast
  have := hleast q hq hpick.symm p hp
  omega

end Choice

/-! ## The choices of a call -/

theorem delete_keys (m : PgNums) (key : Bytes) : (m.delete key).map Prod.fst = (m.map Prod.fst).filter (· ≠ key) := by
  rw [PgNums.delete, List.filter_map]
  rfl

/-- The loop for failure domain osd. -/
def addOsds (ord : MapOrder (Bytes × Int)) : Nat → Calc → Calc
  | 0, c => c
  | n + 1, c => addOsds ord n (c.addOsd ord)

theorem loop_osd (tree : List DomainNode) (old : List Nat) (ord : MapOrder (Bytes × Int)) (n : Nat) (c : Calc) :
    Calc.loop tree old ord .osd n c = .ok (addOsds ord n c) := by
  induction n generalizing c with
  | zero => rfl
  | succ n ih => rw [Calc.loop, if_pos rfl, ih, addOsds]

namespace Calc

variable (tree : List DomainNode) (oldOsdList : List Nat) (ord : MapOrder (Bytes × Int))

/-- The states in which the turns of `addDomain` choose a domain. -/
def domainChoices : Nat → Calc → List Calc
  | 0, _ => []
  | turns + 1, c => c ::
    match tree.find? (·.domainName = c.minPgDomain ord) with
    | none => []
    | some d =>
      if d.childNode.all fun o => oldOsdList.contains o.osdid || c.addOsdList.contains o.osdid then
        domainChoices turns { c with
          domainPgNum := c.domainPgNum.delete (c.minPgDomain ord), iterations := c.iterations + 2 }
      else []

/-- The states in which the loop chooses a domain. -/
def choices (failureDomain : Level) : Nat → Calc → List Calc
  | 0, _ => []
  | n + 1, c =>
    if failureDomain = .osd then c :: choices failureDomain n (c.addOsd ord)
    else domainChoices tree oldOsdList ord (c.domainPgNum.length + 1) c ++
      match addDomain tree oldOsdList ord (c.domainPgNum.length + 1) c with
      | .ok c' => choices failureDomain n c'
      | .error _ => []

end Calc

/-- The states in which `calculatePgOsds` chooses a domain. -/
def pgOsdChoices (failureDomain : Level) (tree : List DomainNode) (pools : List PoolConfig) (addNum : Nat)
    (oldOsdList : List Nat) (ord : MapOrder (Bytes × Int)) : List Calc :=
  let nums := tree.filterMap (domainPgNum (getPgNumPerOsd pools) oldOsdList)
  if nums.isEmpty then [] else Calc.choices tree oldOsdList ord failureDomain addNum
    ⟨nums, getPgNumPerOsd pools, [], 0⟩

/-! ## From one choice to the next -/

namespace Calc

/-- What follows a choice: an OSD is added, or a domain without unused OSDs
leaves the map, or only its number grows. -/
inductive Next (ord : MapOrder (Bytes × Int)) (c : Calc) : Calc → Prop
  | addOsd : Next ord c (c.addOsd ord)
  | drop : Next ord c { c with
      domainPgNum := c.domainPgNum.delete (c.minPgDomain ord), iterations := c.iterations + 2 }
  | count : Next ord c { c with
      domainPgNum := c.domainPgNum.update (c.minPgDomain ord) fun n => int32 (n + 1), iterations := c.iterations + 2 }

/-- The state after some choices. -/
abbrev After (ord : MapOrder (Bytes × Int)) : Calc → Calc → Prop := Relation.ReflTransGen (Next ord)

variable {tree : List DomainNode} {old : List Nat} {ord ord' : MapOrder (Bytes × Int)} {c c' : Calc}

theorem Next.iterations (h : Next ord c c') : c'.iterations = c.iterations + 2 := by
  cases h <;> rfl

theorem After.iterations_le (h : After ord c c') : c.iterations ≤ c'.iterations := by
  induction h with
  | refl => exact Nat.le_refl _
  | tail _ hn ih =>
    have := hn.iterations
    omega

theorem update_keys_nodup {m : PgNums} (hn : (m.map Prod.fst).Nodup) (key : Bytes) (f : Int → Int) :
    ((m.update key f).map Prod.fst).Nodup := by
  unfold PgNums.update
  split
  · have hsame : (m.map fun p => if p.1 = key then (p.1, f p.2) else p).map Prod.fst = m.map Prod.fst := by
      rw [List.map_map]
      refine List.map_congr_left fun p _ => ?_
      dsimp only [Function.comp_apply]
      split <;> rfl
    rwa [hsame]
  · next hnone =>
    rw [List.map_append, List.nodup_append]
    refine ⟨hn, List.nodup_singleton _, fun a ha b hb he => hnone ?_⟩
    obtain rfl : b = key := List.mem_singleton.mp hb
    obtain ⟨p, hp, rfl⟩ := List.mem_map.mp ha
    exact List.lookup_isSome_iff.mpr ⟨p, hp, by simp [he]⟩

theorem Next.keys_nodup (h : Next ord c c') (hn : (c.domainPgNum.map Prod.fst).Nodup) :
    (c'.domainPgNum.map Prod.fst).Nodup := by
  cases h with
  | addOsd => exact update_keys_nodup hn (c.minPgDomain ord) fun n => int32 (n + 1)
  | drop =>
    rw [delete_keys]
    exact hn.filter _
  | count => exact update_keys_nodup hn (c.minPgDomain ord) fun n => int32 (n + 1)

theorem After.keys_nodup (h : After ord c c') (hn : (c.domainPgNum.map Prod.fst).Nodup) :
    (c'.domainPgNum.map Prod.fst).Nodup := by
  induction h with
  | refl => exact hn
  | tail _ hnext ih => exact hnext.keys_nodup ih

/-- A body that ends adds no OSD. -/
theorem addDomain_after : ∀ {turns : Nat} {c : Calc}, addDomain tree old ord turns c = .ok c' →
    After ord c c' ∧ c'.addOsdList = c.addOsdList
  | 0, _, h => by cases h
  | turns + 1, c, h => by
    simp only [addDomain] at h
    split at h
    · obtain rfl := Except.ok.inj h
      exact ⟨.single .count, rfl⟩
    · split at h
      · obtain ⟨hafter, hadd⟩ := addDomain_after h
        exact ⟨.head .drop hafter, hadd⟩
      · cases h

theorem domainChoices_after : ∀ {turns : Nat} {c : Calc}, c' ∈ domainChoices tree old ord turns c → After ord c c'
  | 0, _, h => by simp [domainChoices] at h
  | turns + 1, c, h => by
    simp only [domainChoices] at h
    rcases List.mem_cons.mp h with rfl | h
    · exact .refl
    · split at h
      · simp at h
      · split at h
        · exact .head .drop (domainChoices_after h)
        · simp at h

theorem choices_after {failureDomain : Level} : ∀ {n : Nat} {c : Calc},
    c' ∈ choices tree old ord failureDomain n c → After ord c c'
  | 0, _, h => by simp [choices] at h
  | n + 1, c, h => by
    simp only [choices] at h
    split at h
    · rcases List.mem_cons.mp h with rfl | h
      · exact .refl
      · exact .head .addOsd (choices_after h)
    · rcases List.mem_append.mp h with h | h
      · exact domainChoices_after h
      · split at h
        · next c₁ hc₁ => exact (addDomain_after hc₁).1.trans (choices_after h)
        · simp at h

/-! ## Another order from a choice on -/

/-- The first `k` iterations have the same orders. -/
def Agree (ord ord' : MapOrder (Bytes × Int)) (k : Nat) : Prop := ∀ i < k, ord'.order i = ord.order i

theorem Agree.mono {k k' : Nat} (h : Agree ord ord' k) (hle : k' ≤ k) : Agree ord ord' k' :=
  fun i hi => h i (Nat.lt_of_lt_of_le hi hle)

theorem Agree.minPgDomain (h : Agree ord ord' (c.iterations + 2)) : c.minPgDomain ord' = c.minPgDomain ord := by
  rw [Calc.minPgDomain, Calc.minPgDomain, h _ (by omega), h _ (by omega)]

theorem Agree.addDomain : ∀ {turns : Nat} {c : Calc}, Calc.addDomain tree old ord turns c = .ok c' →
    Agree ord ord' c'.iterations → Calc.addDomain tree old ord' turns c = .ok c'
  | 0, _, h, _ => by cases h
  | turns + 1, c, h, ha => by
    simp only [Calc.addDomain] at h ⊢
    split at h
    · next hf =>
      obtain rfl := Except.ok.inj h
      rw [ha.minPgDomain, hf]
    · next d hf =>
      split at h
      · next hall =>
        have hle := (addDomain_after h).1.iterations_le
        rw [(ha.mono hle).minPgDomain, hf]
        simp only [hall, if_true]
        exact Agree.addDomain h ha
      · cases h

theorem Agree.domainChoices : ∀ {turns : Nat} {c : Calc}, c' ∈ Calc.domainChoices tree old ord turns c →
    Agree ord ord' c'.iterations → c' ∈ Calc.domainChoices tree old ord' turns c
  | 0, _, h, _ => by simp [Calc.domainChoices] at h
  | turns + 1, c, h, ha => by
    simp only [Calc.domainChoices] at h ⊢
    rcases List.mem_cons.mp h with rfl | h
    · exact List.mem_cons_self ..
    · refine List.mem_cons_of_mem _ ?_
      split at h
      · simp at h
      · next d hf =>
        split at h
        · next hall =>
          have hle := (domainChoices_after h).iterations_le
          rw [(ha.mono hle).minPgDomain, hf]
          simp only [hall, if_true]
          exact Agree.domainChoices h ha
        · simp at h

theorem Agree.choices {failureDomain : Level} : ∀ {n : Nat} {c : Calc},
    c' ∈ Calc.choices tree old ord failureDomain n c → Agree ord ord' c'.iterations →
      c' ∈ Calc.choices tree old ord' failureDomain n c
  | 0, _, h, _ => by simp [Calc.choices] at h
  | n + 1, c, h, ha => by
    simp only [Calc.choices] at h ⊢
    split at h
    · next hosd =>
      rw [if_pos hosd]
      rcases List.mem_cons.mp h with rfl | h
      · exact List.mem_cons_self ..
      · have hle := (choices_after h).iterations_le
        have hadd : c.addOsd ord' = c.addOsd ord := by
          simp only [Calc.addOsd, (ha.mono hle).minPgDomain]
        rw [hadd]
        exact List.mem_cons_of_mem _ (Agree.choices h ha)
    · next hosd =>
      rw [if_neg hosd]
      rcases List.mem_append.mp h with h | h
      · exact List.mem_append_left _ (Agree.domainChoices h ha)
      · refine List.mem_append_right _ ?_
        split at h
        · next c₁ hc₁ =>
          rw [Agree.addDomain hc₁ (ha.mono (choices_after h).iterations_le)]
          exact Agree.choices h ha
        · simp at h

/-- The orders of `ord`, and from iteration `k` on the ones of `later`. -/
def splice (k : Nat) (ord later : MapOrder (Bytes × Int)) : MapOrder (Bytes × Int) where
  order i := if i < k then ord.order i else later.order i
  perm i l := by
    split
    · exact ord.perm i l
    · exact later.perm i l

theorem splice_agree (k : Nat) (ord later : MapOrder (Bytes × Int)) : Agree ord (splice k ord later) k :=
  fun _ hi => if_pos hi

end Calc

/-! ## The result -/

section Result

variable {failureDomain : Level} {tree : List DomainNode} {pools : List PoolConfig} {addNum : Nat} {old : List Nat}
  {ord : MapOrder (Bytes × Int)}

theorem nums_keys_nodup (hnames : (tree.map (·.domainName)).Nodup) (num : Nat → Int) :
    ((tree.filterMap (domainPgNum num old)).map Prod.fst).Nodup := by
  have hsub : ((tree.filterMap (domainPgNum num old)).map Prod.fst).Sublist (tree.map (·.domainName)) := by
    induction tree with
    | nil => exact .slnil
    | cons d tree ih =>
      have ih := ih (List.nodup_cons.mp hnames).2
      rw [List.filterMap_cons, List.map_cons]
      unfold domainPgNum
      split
      · exact ih.cons _
      · next p hp =>
        split at hp
        · cases hp
        · obtain rfl := Option.some.inj hp
          exact ih.cons_cons _
  exact hnames.sublist hsub

theorem pgOsdChoices_keys (hnames : (tree.map (·.domainName)).Nodup) {c : Calc}
    (hc : c ∈ pgOsdChoices failureDomain tree pools addNum old ord) : (c.domainPgNum.map Prod.fst).Nodup := by
  simp only [pgOsdChoices] at hc
  split at hc
  · simp at hc
  · exact (Calc.choices_after hc).keys_nodup (nums_keys_nodup hnames _)

theorem pgOsdChoices_agree {ord' : MapOrder (Bytes × Int)} {c : Calc}
    (hc : c ∈ pgOsdChoices failureDomain tree pools addNum old ord) (ha : Calc.Agree ord ord' c.iterations) :
    c ∈ pgOsdChoices failureDomain tree pools addNum old ord' := by
  simp only [pgOsdChoices] at hc ⊢
  split at hc
  · simp at hc
  · next hne =>
    rw [if_neg hne]
    exact Calc.Agree.choices hc ha

/-- For failure domain osd the chosen domains are the OSDs of the result. -/
theorem calculatePgOsds_choices : calculatePgOsds .osd tree pools addNum old ord =
    .ok ((pgOsdChoices .osd tree pools addNum old ord).map fun c => Core.ofDecimal (c.minPgDomain ord)) := by
  have hadded : ∀ (n : Nat) (c : Calc), (addOsds ord n c).addOsdList = c.addOsdList ++
      (Calc.choices tree old ord .osd n c).map fun c => Core.ofDecimal (c.minPgDomain ord) := fun n => by
    induction n with
    | zero => simp [addOsds, Calc.choices]
    | succ n ih => exact fun c => by simp [addOsds, Calc.choices, ih, Calc.addOsd]
  simp only [calculatePgOsds, pgOsdChoices]
  split
  · rfl
  · rw [loop_osd]
    exact congrArg Except.ok (hadded _ _)

/-- For another failure domain no OSD is chosen: the first one lets the
assignment to a nil map panic. -/
theorem calculatePgOsds_bucket (hosd : failureDomain ≠ .osd) {added : List Nat}
    (h : calculatePgOsds failureDomain tree pools addNum old ord = .ok added) : added = [] := by
  have hloop : ∀ {n : Nat} {c c' : Calc}, Calc.loop tree old ord failureDomain n c = .ok c' →
      c'.addOsdList = c.addOsdList := fun {n} => by
    induction n with
    | zero =>
      intro c c' h
      obtain rfl := Except.ok.inj h
      rfl
    | succ n ih =>
      intro c c' h
      rw [Calc.loop, if_neg hosd] at h
      cases hd : Calc.addDomain tree old ord (c.domainPgNum.length + 1) c with
      | error f =>
        rw [hd] at h
        cases h
      | ok c₁ =>
        rw [hd] at h
        exact (ih h).trans (Calc.addDomain_after hd).2
  simp only [calculatePgOsds] at h
  split at h
  · exact (Except.ok.inj h).symm
  · cases hl : Calc.loop tree old ord failureDomain addNum
        ⟨tree.filterMap (domainPgNum (getPgNumPerOsd pools) old), getPgNumPerOsd pools, [], 0⟩ with
    | error f =>
      rw [hl] at h
      cases h
    | ok c =>
      rw [hl] at h
      exact (Except.ok.inj h).symm.trans (hloop hl)

/-- The domains that `calculatePgOsds` chooses have fewest PGs for all
orders exactly if for all orders the candidates have at most two numbers
of PGs at each choice. -/
theorem least_loaded_iff (failureDomain : Level) (tree : List DomainNode) (pools : List PoolConfig) (addNum : Nat)
    (old : List Nat) (hnames : (tree.map (·.domainName)).Nodup) :
    ((∀ ord, ∀ c ∈ pgOsdChoices failureDomain tree pools addNum old ord, Least c.domainPgNum (c.minPgDomain ord)) ↔
      ∀ ord, ∀ c ∈ pgOsdChoices failureDomain tree pools addNum old ord, TwoValues c.domainPgNum) ∧
    ∀ ord, if failureDomain = .osd then
        calculatePgOsds failureDomain tree pools addNum old ord = .ok
          ((pgOsdChoices failureDomain tree pools addNum old ord).map fun c => Core.ofDecimal (c.minPgDomain ord))
      else ∀ added, calculatePgOsds failureDomain tree pools addNum old ord = .ok added → added = [] := by
  refine ⟨⟨fun h ord c hc p hp q hq r hr hpq hqr => ?_, fun h ord c hc => ?_⟩, fun ord => ?_⟩
  · -- the same run up to this choice, and then an order that gives the domain in the middle
    have hagree := Calc.splice_agree c.iterations ord (betweenOrder r.1 q.1)
    have hleast := h _ c (pgOsdChoices_agree hc hagree)
    simp only [Calc.minPgDomain, Calc.splice, Nat.lt_irrefl, if_false,
      show ¬ c.iterations + 1 < c.iterations by omega] at hleast
    exact not_least_between (pgOsdChoices_keys hnames hc) hp hq hr hpq hqr _ _ hleast
  · exact getMinValue_least (pgOsdChoices_keys hnames hc) (h ord c hc) (ord.perm _ _) (ord.perm _ _)
  · split
    · next hosd => exact hosd ▸ calculatePgOsds_choices
    · next hosd => exact fun added => calculatePgOsds_bucket hosd

end Result

/-- Three OSDs in two, one and three PGs. -/
def threeOsds : List DomainNode := [⟨decimal 1, [⟨1, 1⟩]⟩, ⟨decimal 2, [⟨2, 1⟩]⟩, ⟨decimal 3, [⟨3, 1⟩]⟩]

def threeOsdPools : List PoolConfig :=
  [⟨2, .osd, [], [{ osdList := [3, 1] }, { osdList := [3, 1] }, { osdList := [3, 2] }]⟩]

theorem threeOsds_least : (∀ ord, ∀ c ∈ pgOsdChoices .osd threeOsds threeOsdPools 1 [3] ord,
      Least c.domainPgNum (c.minPgDomain ord)) ↔
    ∀ ord, ∀ c ∈ pgOsdChoices .osd threeOsds threeOsdPools 1 [3] ord, TwoValues c.domainPgNum :=
  (least_loaded_iff .osd threeOsds threeOsdPools 1 [3] (by decide)).1

/-- The seed is OSD 3, and the search comes to OSD 2 before OSD 1. -/
theorem more_loaded_chosen :
    calculatePgOsds .osd threeOsds threeOsdPools 1 [] (betweenOrder (decimal 3) (decimal 1)) = .ok [1] ∧
      getPgNumPerOsd threeOsdPools 1 = 2 ∧ getPgNumPerOsd threeOsdPools 2 = 1 := by decide

end Fastblock.L5
