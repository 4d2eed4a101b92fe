import Mathlib.Algebra.Order.Ring.Nat
import Fastblock.L5Monitor.Migration

/-!
# Cores of a failure domain

Steps 3 and 4 of `SimpleInitial` (monitor/osd/calculator.go:1364-1439)
give each PG one core number, and take in each of its failure domains the
least used OSD on that core. Any two OSDs of a domain that take part
differ by at most one in the number of PGs they have on a core
(`cores_even`).

The list of a domain stays sorted by the numbers of PGs, so the first
entry of a core is one with fewest PGs of that core (`EvenList`,
`Took.even`). The entry at the front of the list of the least used host is
of the core that the other hosts search, so all members of a PG are taken
as the first entry of one core (`placeOsds_took`). The lists are seen as
the numbers of PGs they stand for by `load`.
-/
namespace Fastblock.L5

/-! ## One list -/

/-- The PGs that the entries of an OSD on a core have. -/
def load (lst : List OsdCore) (osd core : Nat) : Nat := ((lst.filter (·.key = (osd, core))).map (·.pgnum)).sum

/-- The list of a domain between two PGs. -/
structure EvenList (lst : List OsdCore) : Prop where
  sorted : lst.Pairwise (·.pgnum ≤ ·.pgnum)
  level : ∀ o ∈ lst, ∀ o' ∈ lst, o.coreid = o'.coreid → o.pgnum ≤ o'.pgnum + 1

/-- The first entry of a core gets a PG and moves behind the ones with as
many. -/
structure Took (core : Nat) (osd : OsdCore) (lst lst' : List OsdCore) : Prop where
  coreid : osd.coreid = core
  split : ∃ front behind, lst = front ++ osd :: behind ∧ (∀ o ∈ front, o.coreid ≠ core) ∧
    lst' = front ++ sortOsdList { osd with pgnum := osd.pgnum + 1 } behind

section List

variable {lst lst' : List OsdCore} {osd : OsdCore} {core : Nat}

theorem load_perm (h : lst.Perm lst') (a c : Nat) : load lst a c = load lst' a c :=
  ((h.filter _).map _).sum_nat

theorem load_cons (o : OsdCore) (lst : List OsdCore) (a c : Nat) :
    load (o :: lst) a c = (if o.key = (a, c) then o.pgnum else 0) + load lst a c := by
  unfold load
  rw [List.filter_cons]
  split <;> simp_all

theorem load_eq_zero {a c : Nat} (h : (a, c) ∉ lst.map OsdCore.key) : load lst a c = 0 := by
  have hnone : lst.filter (·.key = (a, c)) = [] :=
    List.filter_eq_nil_iff.mpr fun o ho hk => h (List.mem_map.mpr ⟨o, ho, of_decide_eq_true hk⟩)
  rw [load, hnone]
  rfl

theorem load_of_mem (hn : (lst.map OsdCore.key).Nodup) {o : OsdCore} (ho : o ∈ lst) :
    load lst o.osdid o.coreid = o.pgnum := by
  induction lst with
  | nil => simp at ho
  | cons x lst ih =>
    rw [List.map_cons, List.nodup_cons] at hn
    rw [load_cons]
    rcases List.mem_cons.mp ho with rfl | ho
    · rw [if_pos (show o.key = (o.osdid, o.coreid) from rfl), load_eq_zero hn.1, Nat.add_zero]
    · have hne : x.key ≠ (o.osdid, o.coreid) := fun he => hn.1 (List.mem_map.mpr ⟨o, ho, he.symm⟩)
      rw [if_neg hne, Nat.zero_add, ih hn.2 ho]

theorem takeCore_took (h : takeCore (·.coreid = core) lst = some (osd, lst')) : Took core osd lst lst' := by
  induction lst generalizing lst' with
  | nil => cases h
  | cons o lst ih =>
    rw [takeCore] at h
    split at h
    · next hc =>
      obtain ⟨rfl, rfl⟩ := Prod.mk.inj (Option.some.inj h)
      exact ⟨of_decide_eq_true hc, [], lst, rfl, by simp, rfl⟩
    · next hc =>
      obtain ⟨⟨osd', lst₁⟩, hr, he⟩ := Option.map_eq_some_iff.mp h
      obtain ⟨rfl, rfl⟩ : osd' = osd ∧ o :: lst₁ = lst' := Prod.mk.inj he
      obtain ⟨hcore, front, behind, rfl, hfront, rfl⟩ := ih hr
      refine ⟨hcore, o :: front, behind, rfl, List.forall_mem_cons.mpr ⟨?_, hfront⟩, rfl⟩
      exact fun he => hc (decide_eq_true he)

theorem sortOsdList_cons (osd o : OsdCore) (behind : List OsdCore) : sortOsdList osd (o :: behind) =
    if osd.pgnum < o.pgnum then osd :: o :: behind else o :: sortOsdList osd behind := by
  unfold sortOsdList
  split <;> simp_all

theorem sortOsdList_sorted : ∀ {behind : List OsdCore}, behind.Pairwise (·.pgnum ≤ ·.pgnum) →
    (sortOsdList osd behind).Pairwise (·.pgnum ≤ ·.pgnum)
  | [], _ => List.pairwise_singleton _ _
  | o :: behind, h => by
    obtain ⟨hle, hrest⟩ := List.pairwise_cons.mp h
    rw [sortOsdList_cons]
    split
    · next hlt =>
      refine List.pairwise_cons.mpr ⟨List.forall_mem_cons.mpr ⟨Nat.le_of_lt hlt, fun x hx => ?_⟩, h⟩
      exact Nat.le_trans (Nat.le_of_lt hlt) (hle x hx)
    · next hge =>
      refine List.pairwise_cons.mpr ⟨fun x hx => ?_, sortOsdList_sorted hrest⟩
      rcases List.mem_cons.mp ((sortOsdList_perm osd behind).mem_iff.mp hx) with rfl | hx
      · exact Nat.le_of_not_lt hge
      · exact hle x hx

namespace Took

variable (h : Took core osd lst lst')

include h

/-- The entries after it, in another order. -/
theorem perm : ∃ rest, lst.Perm (osd :: rest) ∧ lst'.Perm ({ osd with pgnum := osd.pgnum + 1 } :: rest) ∧
    (EvenList lst → ∀ o ∈ rest, o.coreid = core → osd.pgnum ≤ o.pgnum) := by
  obtain ⟨front, behind, rfl, hfront, rfl⟩ := h.split
  refine ⟨front ++ behind, List.perm_middle, ?_, fun he o ho hc => ?_⟩
  · exact ((sortOsdList_perm _ behind).append_left front).trans List.perm_middle
  · rcases List.mem_append.mp ho with ho | ho
    · exact absurd hc (hfront o ho)
    · exact List.rel_of_pairwise_cons (List.pairwise_append.mp he.sorted).2.1 ho

theorem sorted (he : EvenList lst) : lst'.Pairwise (·.pgnum ≤ ·.pgnum) := by
  obtain ⟨front, behind, rfl, -, rfl⟩ := h.split
  obtain ⟨hfront, hbehind, hle⟩ := List.pairwise_append.mp he.sorted
  refine List.pairwise_append.mpr ⟨hfront, sortOsdList_sorted (List.pairwise_cons.mp hbehind).2, fun x hx y hy => ?_⟩
  rcases List.mem_cons.mp ((sortOsdList_perm _ behind).mem_iff.mp hy) with rfl | hy
  · exact Nat.le_succ_of_le (hle x hx osd (List.mem_cons_self ..))
  · exact hle x hx y (List.mem_cons_of_mem _ hy)

theorem even (he : EvenList lst) : EvenList lst' := by
  refine ⟨h.sorted he, ?_⟩
  obtain ⟨rest, hp, hp', hleast⟩ := h.perm
  have hlevel : ∀ o ∈ osd :: rest, ∀ o' ∈ osd :: rest, o.coreid = o'.coreid → o.pgnum ≤ o'.pgnum + 1 :=
    fun o ho o' ho' => he.level o (hp.mem_iff.mpr ho) o' (hp.mem_iff.mpr ho')
  intro o ho o' ho' hc
  rcases List.mem_cons.mp (hp'.mem_iff.mp ho) with rfl | ho
  · rcases List.mem_cons.mp (hp'.mem_iff.mp ho') with rfl | ho'
    · exact Nat.le_succ _
    · exact Nat.succ_le_succ (hleast he o' ho' (hc.symm.trans h.coreid))
  · rcases List.mem_cons.mp (hp'.mem_iff.mp ho') with rfl | ho'
    · exact Nat.le_succ_of_le (hlevel o (List.mem_cons_of_mem _ ho) osd (List.mem_cons_self ..) hc)
    · exact hlevel o (List.mem_cons_of_mem _ ho) o' (List.mem_cons_of_mem _ ho') hc

theorem mem : osd ∈ lst := by
  obtain ⟨rest, hp, -⟩ := h.perm
  exact hp.mem_iff.mpr (List.mem_cons_self ..)

theorem keys : (lst'.map OsdCore.key).Perm (lst.map OsdCore.key) := by
  obtain ⟨rest, hp, hp', -⟩ := h.perm
  exact (hp'.map _).trans (hp.map OsdCore.key).symm

theorem load (a c : Nat) : load lst' a c = load lst a c + if osd.osdid = a ∧ core = c then 1 else 0 := by
  obtain ⟨rest, hp, hp', -⟩ := h.perm
  rw [load_perm hp, load_perm hp', load_cons, load_cons]
  simp only [OsdCore.key, Prod.mk.injEq, h.coreid]
  split <;> omega

/-- No entry gets more than one PG. -/
theorem pgnum_le {n : Nat} (hn : ∀ o ∈ lst, o.pgnum ≤ n) : ∀ o ∈ lst', o.pgnum ≤ n + 1 := fun o ho => by
  obtain ⟨rest, hp, hp', -⟩ := h.perm
  rcases List.mem_cons.mp (hp'.mem_iff.mp ho) with rfl | ho
  · exact Nat.succ_le_succ (hn osd h.mem)
  · exact Nat.le_succ_of_le (hn o (hp.mem_iff.mpr (List.mem_cons_of_mem _ ho)))

end Took

end List

/-! ## One PG -/

/-- What a PG on a core does to the list of one host, by the entry that the
host gives. -/
inductive Update (core : Nat) : Option OsdCore → List OsdCore → List OsdCore → Prop
  | same (lst : List OsdCore) : Update core none lst lst
  | took {osd : OsdCore} {lst lst' : List OsdCore} (h : Took core osd lst lst') : Update core (some osd) lst lst'

/-- The list of a domain after at most `n` PGs. -/
structure DomainList (coreNum n : Nat) (d : DomainNode) (lst : List OsdCore) : Prop where
  even : EvenList lst
  pgnum : ∀ o ∈ lst, o.pgnum ≤ n
  keys : (lst.map OsdCore.key).Perm ((osdCores coreNum d).map OsdCore.key)

/-- `host_map` after at most `n` PGs. -/
structure Lists (coreNum n : Nat) (tree : List DomainNode) (hostMap : List (List OsdCore)) : Prop where
  length : hostMap.length = tree.length
  lists : ∀ (i : Nat) d lst, tree[i]? = some d → hostMap[i]? = some lst → DomainList coreNum n d lst

section Update

variable {core coreNum n : Nat} {got : Option OsdCore} {lst lst' : List OsdCore} {d : DomainNode}

theorem Update.load (h : Update core got lst lst') (a c : Nat) :
    load lst' a c = load lst a c + if core = c ∧ a ∈ got.map (·.osdid) then 1 else 0 := by
  cases h with
  | same => simp
  | took h =>
    rw [h.load, Option.map_some]
    simp only [Option.mem_some_iff, and_comm]

theorem DomainList.update (hl : DomainList coreNum n d lst) (h : Update core got lst lst') :
    DomainList coreNum (n + 1) d lst' := by
  cases h with
  | same => exact ⟨hl.even, fun o ho => Nat.le_succ_of_le (hl.pgnum o ho), hl.keys⟩
  | took h => exact ⟨h.even hl.even, h.pgnum_le hl.pgnum, h.keys.trans hl.keys⟩

theorem DomainList.has (hl : DomainList coreNum n d lst) {o : OsdCore} (ho : o ∈ lst) : d.Has o.osdid := by
  obtain ⟨o', ho', hk⟩ := List.mem_map.mp (hl.keys.mem_iff.mp (List.mem_map_of_mem ho))
  obtain ⟨c, -, ho'⟩ := List.mem_flatMap.mp ho'
  obtain ⟨t, ht, rfl⟩ := List.mem_map.mp ho'
  exact ⟨t, (List.mem_filter.mp ht).1, congrArg Prod.fst hk⟩

end Update

section Place

variable {coreNum n : Nat} {tree : List DomainNode} {hostMap hostMap' : List (List OsdCore)} {row : List Int}
  {index core : Nat}

theorem lookup_zip_eq_none {β : Type*} {bs : List β} {x : Int} (h : x ∉ row) : (row.zip bs).lookup x = none := by
  rw [List.lookup_eq_none_iff]
  intro p hp
  have := (List.of_mem_zip hp).1
  exact bne_iff_ne.mpr fun he => h (he ▸ this)

/-- At the place of the least used host the front is of the core that the
other hosts search. -/
theorem takeCore_front {lst : List OsdCore} {j : Nat} (h : j = index → ∀ o ∈ lst.head?, o.coreid = core) :
    takeCore (fun o => j = index || o.coreid = core) lst = takeCore (·.coreid = core) lst := by
  by_cases hj : j = index
  · cases lst with
    | nil => rfl
    | cons o lst => simp [takeCore, hj, h hj o rfl]
  · simp [hj]

theorem placeOsds_took {j : Nat} {osds : List OsdCore} (h : placeOsds index core row j hostMap = some (osds, hostMap'))
    (hn : row.Nodup)
    (hfront : ∀ k host lst o, row[k]? = some host → j + k = index → goIndex hostMap host = some lst →
      lst.head? = some o → o.coreid = core) :
    hostMap'.length = hostMap.length ∧
    (∀ (i : Nat) lst, hostMap[i]? = some lst →
      ∃ lst', hostMap'[i]? = some lst' ∧ Update core ((row.zip osds).lookup (i : Int)) lst lst') ∧
    osds.length = row.length ∧
    ∀ p ∈ row.zip osds, ∃ lst, goIndex hostMap p.1 = some lst ∧ p.2 ∈ lst ∧ p.2.coreid = core := by
  induction row generalizing j hostMap osds with
  | nil =>
    obtain ⟨rfl, rfl⟩ : [] = osds ∧ hostMap = hostMap' := Prod.mk.inj (Option.some.inj h)
    exact ⟨rfl, fun i lst hi => ⟨lst, hi, .same lst⟩, rfl, by simp⟩
  | cons host row ih =>
    obtain ⟨hnot, hn'⟩ := List.nodup_cons.mp hn
    obtain ⟨lst, hl, h⟩ := Option.bind_eq_some_iff.mp h
    obtain ⟨⟨osd, lst₁⟩, ht, h⟩ := Option.bind_eq_some_iff.mp h
    obtain ⟨hostMap₁, hup, h⟩ := Option.bind_eq_some_iff.mp h
    obtain ⟨⟨rest, hostMap₂⟩, hrest, h⟩ := Option.bind_eq_some_iff.mp h
    obtain ⟨rfl, rfl⟩ : osd :: rest = osds ∧ hostMap₂ = hostMap' := Prod.mk.inj (Option.some.inj h)
    rw [takeCore_front (j := j) fun hj o ho => hfront 0 host lst o rfl hj hl ho] at ht
    have htook := takeCore_took ht
    obtain ⟨h0, _, hold, rfl⟩ := goUpdate_eq_some.mp hup
    obtain ⟨i₀, rfl⟩ := Int.eq_ofNat_of_zero_le h0
    have hlst : hostMap[i₀]? = some lst := (goIndex_eq_some.mp hl).2
    have hother : ∀ h' ∈ row, goIndex (hostMap.set i₀ lst₁) h' = goIndex hostMap h' := fun h' hh' => by
      have hne : 0 ≤ h' → i₀ ≠ h'.toNat := fun h0 he => hnot (by rwa [he, Int.toNat_of_nonneg h0])
      unfold goIndex
      split
      · next h0 => exact List.getElem?_set_ne (hne h0)
      · rfl
    obtain ⟨hlen, hlists, hsame, hall⟩ := ih hrest hn' fun k h' l o hk hj hl' ho =>
      hfront (k + 1) h' l o hk (by omega) (by rw [← hother h' (List.mem_of_getElem? hk)]; exact hl') ho
    refine ⟨by rw [hlen, List.length_set], fun i l hi => ?_, congrArg (· + 1) hsame,
      List.forall_mem_cons.mpr ⟨⟨lst, hl, htook.mem, htook.coreid⟩, fun p hp => ?_⟩⟩
    · rw [List.zip_cons_cons, List.lookup_cons]
      by_cases hii : i = i₀
      · subst hii
        obtain rfl : l = lst := Option.some.inj (hi.symm.trans hlst)
        obtain ⟨lst', hlst', hup'⟩ := hlists i lst₁ (by
          rw [Int.toNat_natCast, List.getElem?_set_self (List.getElem?_eq_some_iff.mp hi).1])
        rw [lookup_zip_eq_none hnot] at hup'
        cases hup' with
        | same => exact ⟨_, hlst', by simpa using Update.took htook⟩
      · have hne : ((i : Int) == (i₀ : Int)) = false := by simpa using hii
        rw [hne]
        exact hlists i l (by rw [Int.toNat_natCast, List.getElem?_set_ne (Ne.symm hii), hi])
    · rw [← hother p.1 (List.of_mem_zip hp).1]
      exact hall p hp

theorem lookup_zip_of_mem {β : Type*} {bs : List β} (hn : row.Nodup) {x : Int} {b : β} (h : (x, b) ∈ row.zip bs) :
    (row.zip bs).lookup x = some b := by
  induction row generalizing bs with
  | nil => simp at h
  | cons y row ih =>
    cases bs with
    | nil => simp at h
    | cons b' bs =>
      rw [List.zip_cons_cons] at h ⊢
      rcases List.mem_cons.mp h with he | h
      · obtain ⟨rfl, rfl⟩ := Prod.mk.inj he
        simp
      · have hne : x ≠ y := fun he => (List.nodup_cons.mp hn).1 (he ▸ (List.of_mem_zip h).1)
        rw [List.lookup_cons, beq_false_of_ne hne]
        exact ih (List.nodup_cons.mp hn).2 h

theorem exists_mem_zip {β : Type*} {bs : List β} (hlen : bs.length = row.length) {b : β} (h : b ∈ bs) :
    ∃ x, (x, b) ∈ row.zip bs := by
  obtain ⟨k, hk, rfl⟩ := List.getElem_of_mem h
  refine ⟨row[k], List.mem_iff_getElem?.mpr ⟨k, ?_⟩⟩
  rw [List.getElem?_zip_eq_some]
  exact ⟨List.getElem?_eq_getElem _, List.getElem?_eq_getElem hk⟩

/-- The search ends at one of the entries, or where it began. -/
theorem foldl_least (l : List OsdCore) (k : Nat) (m : Nat × Nat × Nat) :
    let r := (l.zipIdx k).foldl (fun (m : Nat × Nat × Nat) p =>
      if p.1.pgnum < m.1 then (p.1.pgnum, p.2, p.1.coreid) else m) m
    r.2 = m.2 ∨ ∃ j o, l[j]? = some o ∧ r.2 = (k + j, o.coreid) := by
  induction l generalizing k m with
  | nil => exact .inl rfl
  | cons o l ih =>
    rw [List.zipIdx_cons, List.foldl_cons]
    dsimp only
    rcases ih (k + 1) (if o.pgnum < m.1 then (o.pgnum, k, o.coreid) else m) with h | ⟨j, o', hj, h⟩
    · rw [h]
      split
      · exact .inr ⟨0, o, rfl, rfl⟩
      · exact .inl rfl
    · exact .inr ⟨j + 1, o', hj, by rw [h, Nat.add_right_comm, Nat.add_assoc]⟩

/-- The least used front, if all have fewer PGs than the number the search
starts with. -/
theorem leastUsed_front (h : leastUsed hostMap row = some (index, core)) (hne : row ≠ [])
    (hlt : ∀ host ∈ row, ∀ lst, goIndex hostMap host = some lst → ∀ o ∈ lst, o.pgnum < 2 ^ 63 - 1) :
    ∃ host lst o, row[index]? = some host ∧ goIndex hostMap host = some lst ∧ lst.head? = some o ∧
      o.coreid = core := by
  obtain ⟨fronts, hf, h⟩ := Option.bind_eq_some_iff.mp h
  have hmap := Core.mapM_eq_some_iff.mp hf
  have hfront : ∀ (k : Nat) o, fronts[k]? = some o →
      ∃ host lst, row[k]? = some host ∧ goIndex hostMap host = some lst ∧ lst.head? = some o := fun k o ho => by
    have hk := congrArg (·[k]?) hmap
    simp only [List.getElem?_map, ho, Option.map_some] at hk
    obtain ⟨host, hhost, hk⟩ := Option.map_eq_some_iff.mp hk
    obtain ⟨lst, hlst, hhead⟩ := Option.bind_eq_some_iff.mp hk
    exact ⟨host, lst, hhost, hlst, hhead⟩
  have hend : ∃ j o, fronts[j]? = some o ∧ (index, core) = (j, o.coreid) := by
    cases fronts with
    | nil =>
      rw [List.map_nil, List.map_eq_nil_iff] at hmap
      exact absurd hmap hne
    | cons o fronts =>
      obtain ⟨host, lst, hhost, hlst, hhead⟩ := hfront 0 o rfl
      have hsmall := hlt host (List.mem_of_getElem? hhost) lst hlst o (List.mem_of_mem_head? hhead)
      rw [List.zipIdx_cons, List.foldl_cons, if_pos hsmall] at h
      rcases foldl_least fronts 1 (o.pgnum, 0, o.coreid) with hr | ⟨j, o', hj, hr⟩
      · exact ⟨0, o, rfl, (Option.some.inj h).symm.trans hr⟩
      · exact ⟨j + 1, o', hj, (Option.some.inj h).symm.trans (by rw [hr, Nat.add_comm])⟩
  obtain ⟨j, o, hj, he⟩ := hend
  obtain ⟨rfl, rfl⟩ := Prod.mk.inj he
  obtain ⟨host, lst, hhost, hlst, hhead⟩ := hfront _ o hj
  exact ⟨host, lst, o, hhost, hlst, hhead, rfl⟩

/-- One PG: the lists stay even, and each OSD of a domain has one PG more on
the core if it is a member. -/
theorem Lists.place (hl : Lists coreNum n tree hostMap) (hdis : DisjointDomains tree)
    (hn : n < 2 ^ 63 - 1) {pgSize : Nat}
    (hrow : GoodRow tree.length pgSize row) (hs : 0 < pgSize) (hleast : leastUsed hostMap row = some (index, core))
    {members : List OsdCore} (hplace : placeOsds index core row 0 hostMap = some (members, hostMap')) :
    members[index]?.map (·.coreid) = some core ∧ Lists coreNum (n + 1) tree hostMap' ∧
      ∀ (i : Nat) d lst lst', tree[i]? = some d → hostMap[i]? = some lst → hostMap'[i]? = some lst' →
        ∀ a, d.Has a → ∀ c, load lst' a c = load lst a c + if core = c ∧ a ∈ members.map (·.osdid) then 1 else 0 := by
  have hdomain : ∀ host ∈ row, ∀ lst, goIndex hostMap host = some lst →
      ∃ d, tree[host.toNat]? = some d ∧ DomainList coreNum n d lst := fun host hh lst hlst => by
    obtain ⟨d, -, hd⟩ := goIndex_of_lt (hrow.range host hh).1 (hrow.range host hh).2
    exact ⟨d, hd, hl.lists _ _ _ hd (goIndex_eq_some.mp hlst).2⟩
  obtain ⟨host₀, lst₀, o₀, hhost₀, hlst₀, hhead₀, hcore₀⟩ := leastUsed_front hleast
    (List.ne_nil_of_length_pos (hrow.length ▸ hs)) fun host hh lst hlst o ho => by
      obtain ⟨d, -, hdl⟩ := hdomain host hh lst hlst
      have := hdl.pgnum o ho
      omega
  obtain ⟨hlen, hlists, hsame, hall⟩ := placeOsds_took hplace hrow.nodup fun k host lst o hk hj hlst hhead => by
    obtain rfl : k = index := by omega
    obtain rfl : host₀ = host := Option.some.inj (hhost₀.symm.trans hk)
    obtain rfl : lst₀ = lst := Option.some.inj (hlst₀.symm.trans hlst)
    obtain rfl : o₀ = o := Option.some.inj (hhead₀.symm.trans hhead)
    exact hcore₀
  refine ⟨?_, ⟨hlen.trans hl.length, fun i d lst' hd hlst' => ?_⟩, fun i d lst lst' hd hlst hlst' a ha c => ?_⟩
  · have hlt : index < members.length := hsame ▸ (List.getElem?_eq_some_iff.mp hhost₀).1
    obtain ⟨_, -, -, hc⟩ := hall (host₀, members[index]) (List.mem_iff_getElem?.mpr ⟨index, by
      rw [List.getElem?_zip_eq_some]
      exact ⟨hhost₀, List.getElem?_eq_getElem hlt⟩⟩)
    rw [List.getElem?_eq_getElem hlt, Option.map_some]
    exact congrArg some hc
  · obtain ⟨lst, hlst⟩ : ∃ lst, hostMap[i]? = some lst :=
      ⟨_, List.getElem?_eq_getElem (hlen ▸ (List.getElem?_eq_some_iff.mp hlst').1)⟩
    obtain ⟨lst₁, hlst₁, hup⟩ := hlists i lst hlst
    obtain rfl : lst₁ = lst' := Option.some.inj (hlst₁.symm.trans hlst')
    exact (hl.lists i d lst hd hlst).update hup
  · obtain ⟨lst₁, hlst₁, hup⟩ := hlists i lst hlst
    obtain rfl : lst₁ = lst' := Option.some.inj (hlst₁.symm.trans hlst')
    -- an OSD of this domain is a member only as the entry that this host gave
    have hmem : a ∈ ((row.zip members).lookup (i : Int)).map (·.osdid) ↔ a ∈ members.map (·.osdid) := by
      constructor
      · intro h
        obtain ⟨o, ho, rfl⟩ := Option.map_eq_some_iff.mp h
        obtain ⟨front, behind, hzip, -⟩ := List.lookup_eq_some_iff.mp ho
        exact List.mem_map_of_mem (List.of_mem_zip (hzip ▸ List.mem_append_right _ (List.mem_cons_self ..))).2
      · intro h
        obtain ⟨o, ho, rfl⟩ := List.mem_map.mp h
        obtain ⟨host, hzip⟩ := exists_mem_zip hsame ho
        obtain ⟨l, hl', ho', -⟩ := hall _ hzip
        obtain ⟨d', hd', hdl⟩ := hdomain host (List.of_mem_zip hzip).1 l hl'
        have hi : i = host.toNat := hdis.eq hd hd' ha (hdl.has ho')
        have hhost : (i : Int) = host := by rw [hi, Int.toNat_of_nonneg (goIndex_eq_some.mp hl').1]
        rw [hhost, lookup_zip_of_mem hrow.nodup hzip]
        rfl
    rw [hup.load]
    simp only [hmem]

/-- The PGs with core `core` that an OSD has. -/
def carried (pgs : List PGConfig) (osd core : Nat) : Nat := pgs.countP fun pg => pg.coreIndex = core ∧ osd ∈ pg.osdList

theorem withVersion_coreIndex (osds : OsdInfos) (poolPgSize : Nat) (old : Option PGConfig) (pg : PGConfig) :
    (withVersion osds poolPgSize old pg).coreIndex = pg.coreIndex := by
  unfold withVersion
  split <;> rfl

theorem placePgs_load {osds : OsdInfos} {poolPgSize : Nat} {old : Nat → Option PGConfig} (hdis : DisjointDomains tree)
    {pgSize : Nat} (hs : 0 < pgSize) : ∀ {rows : List (List Int)} {i n : Nat} {hostMap : List (List OsdCore)}
      {pgs : List PGConfig}, placePgs osds poolPgSize old rows i hostMap = some pgs → Lists coreNum n tree hostMap →
      n + rows.length ≤ 2 ^ 63 - 1 → (∀ row ∈ rows, GoodRow tree.length pgSize row) →
      ∃ hostMap', Lists coreNum (n + rows.length) tree hostMap' ∧
        ∀ (i : Nat) d lst lst', tree[i]? = some d → hostMap[i]? = some lst → hostMap'[i]? = some lst' →
          ∀ a, d.Has a → ∀ c, load lst' a c = load lst a c + carried pgs a c
  | [], _, _, hostMap, pgs, h, hl, _, _ => by
    obtain rfl : [] = pgs := Option.some.inj h
    refine ⟨hostMap, hl, fun i d lst lst' _ hlst hlst' a _ c => ?_⟩
    obtain rfl : lst = lst' := Option.some.inj (hlst.symm.trans hlst')
    rfl
  | row :: rows, i, n, hostMap, pgs, h, hl, hn, hrows => by
    obtain ⟨⟨index, core⟩, hleast, h⟩ := Option.bind_eq_some_iff.mp h
    obtain ⟨⟨members, hostMap₁⟩, hplace, h⟩ := Option.bind_eq_some_iff.mp h
    obtain ⟨rest, hrest, h⟩ := Option.bind_eq_some_iff.mp h
    obtain rfl := Option.some.inj h
    obtain ⟨hrow, hrows⟩ := List.forall_mem_cons.mp hrows
    rw [List.length_cons] at hn
    obtain ⟨hcore, hl₁, hload⟩ := hl.place hdis (by omega) hrow hs hleast hplace
    obtain ⟨hostMap', hl', hload'⟩ := placePgs_load hdis hs hrest hl₁ (by omega) hrows
    refine ⟨hostMap', by rw [List.length_cons, Nat.add_comm rows.length, ← Nat.add_assoc]; exact hl',
      fun k d lst lst' hd hlst hlst' a ha c => ?_⟩
    obtain ⟨lst₁, hlst₁⟩ : ∃ lst₁, hostMap₁[k]? = some lst₁ := ⟨_, List.getElem?_eq_getElem (by
      rw [hl₁.length]; exact (List.getElem?_eq_some_iff.mp hd).1)⟩
    rw [hload' k d lst₁ lst' hd hlst₁ hlst' a ha c, hload k d lst lst₁ hd hlst hlst₁ a ha c, carried, carried,
      List.countP_cons]
    simp only [withVersion_coreIndex, withVersion_osdList, hcore, Option.getD_some, decide_eq_true_eq]
    omega

end Place

/-! ## The placement -/

section Balanced

variable {coreNum : Nat} {d : DomainNode}

theorem osdCores_keys_nodup (h : (d.childNode.map (·.osdid)).Nodup) :
    ((osdCores coreNum d).map OsdCore.key).Nodup := by
  rw [osdCores, List.map_flatMap, List.nodup_flatMap]
  refine ⟨fun c _ => ?_, List.nodup_range.imp fun {c c'} hne => ?_⟩
  · rw [List.map_map]
    have hids := h.sublist ((List.filter_sublist (p := fun t : TreeNode => t.coreNum = coreNum)).map _)
    have hkeys := hids.map (f := fun osd => (osd, c)) fun a b hab => (Prod.mk.inj hab).1
    rwa [List.map_map] at hkeys
  · intro k hk hk'
    obtain ⟨o, ho, rfl⟩ := List.mem_map.mp hk
    obtain ⟨t, -, rfl⟩ := List.mem_map.mp ho
    obtain ⟨o', ho', he⟩ := List.mem_map.mp hk'
    obtain ⟨t', -, rfl⟩ := List.mem_map.mp ho'
    exact hne (Prod.mk.inj he).2.symm

theorem mem_osdCores_keys {t : TreeNode} (ht : t ∈ d.childNode) (hc : t.coreNum = coreNum) {c : Nat} :
    (t.osdid, c) ∈ (osdCores coreNum d).map OsdCore.key ↔ c < coreNum := by
  constructor
  · intro h
    obtain ⟨o, ho, hk⟩ := List.mem_map.mp h
    obtain ⟨c', hc', ho⟩ := List.mem_flatMap.mp ho
    obtain ⟨t', -, rfl⟩ := List.mem_map.mp ho
    exact (Prod.mk.inj hk).2 ▸ List.mem_range.mp hc'
  · intro h
    refine List.mem_map.mpr ⟨⟨t.osdid, c, 0⟩, List.mem_flatMap.mpr ⟨c, List.mem_range.mpr h, ?_⟩, rfl⟩
    exact List.mem_map.mpr ⟨t, List.mem_filter.mpr ⟨ht, decide_eq_true hc⟩, rfl⟩

theorem osdCores_list : DomainList coreNum 0 d (osdCores coreNum d) := by
  have hzero : ∀ o ∈ osdCores coreNum d, o.pgnum = 0 := fun o ho => by
    obtain ⟨c, -, ho⟩ := List.mem_flatMap.mp ho
    obtain ⟨t, -, rfl⟩ := List.mem_map.mp ho
    rfl
  refine ⟨⟨?_, fun o ho o' _ _ => ?_⟩, fun o ho => Nat.le_of_eq (hzero o ho), .refl _⟩
  · exact List.pairwise_of_forall_mem_list fun o ho o' _ => by rw [hzero o ho]; exact Nat.zero_le _
  · rw [hzero o ho]
    exact Nat.zero_le _

/-- Two OSDs that take part have even loads on each core. -/
theorem DomainList.load_le {n : Nat} {lst : List OsdCore} (hl : DomainList coreNum n d lst)
    (hn : (d.childNode.map (·.osdid)).Nodup) {t t' : TreeNode} (ht : t ∈ d.childNode) (ht' : t' ∈ d.childNode)
    (hc : t.coreNum = coreNum) (hc' : t'.coreNum = coreNum) (core : Nat) :
    load lst t.osdid core ≤ load lst t'.osdid core + 1 := by
  have hkeys : (lst.map OsdCore.key).Nodup := hl.keys.nodup_iff.mpr (osdCores_keys_nodup hn)
  by_cases hcore : core < coreNum
  · have entry : ∀ {t : TreeNode}, t ∈ d.childNode → t.coreNum = coreNum → ∃ o ∈ lst, o.key = (t.osdid, core) :=
      fun ht hc => List.mem_map.mp (hl.keys.mem_iff.mpr ((mem_osdCores_keys ht hc).mpr hcore))
    obtain ⟨o, ho, hk⟩ := entry ht hc
    obtain ⟨o', ho', hk'⟩ := entry ht' hc'
    obtain ⟨hid, hcore⟩ := Prod.mk.inj hk
    obtain ⟨hid', hcore'⟩ := Prod.mk.inj hk'
    have hload := load_of_mem hkeys ho
    have hload' := load_of_mem hkeys ho'
    rw [hid, hcore] at hload
    rw [hid', hcore'] at hload'
    rw [hload, hload']
    exact hl.even.level o ho o' ho' (hcore.trans hcore'.symm)
  · rw [load_eq_zero fun hk => hcore ((mem_osdCores_keys ht hc).mp (hl.keys.mem_iff.mp hk))]
    exact Nat.zero_le _

theorem osdCores_load (a c : Nat) : load (osdCores coreNum d) a c = 0 := by
  have hgen : ∀ {lst : List OsdCore}, (∀ o ∈ lst, o.pgnum = 0) → load lst a c = 0 := fun {lst} h => by
    induction lst with
    | nil => rfl
    | cons o lst ih =>
      obtain ⟨ho, hrest⟩ := List.forall_mem_cons.mp h
      rw [load_cons, ho, ih hrest, ite_self]
  exact hgen fun o ho => Nat.le_zero.mp (osdCores_list.pgnum o ho)

/-- The steps of a placement that is done. -/
theorem simpleInitial_done {cfg : OptimizeCfg} {poolPgSize : Nat} {osds : OsdInfos} {perm : List Nat}
    {draws : Nat → Nat → List Nat} {pgs : List PGConfig}
    (h : simpleInitial cfg poolPgSize coreNum osds perm draws = .done pgs) :
    0 < cfg.osdTree.length ∧ (cfg.pgSize = 0 → cfg.pgCount = 0) ∧
      ∃ rows nums b, chooseRows cfg.osdTree.length cfg.pgCount cfg.pgSize perm draws = some rows ∧
        pgNumOnHost cfg.osdTree.length rows = some nums ∧
        balance ((cfg.pgCount * cfg.pgSize / cfg.osdTree.length : Nat)) (pgOnHost rows) cfg.pgCount
          ⟨rows, nums⟩ = some b ∧
        placePgs osds poolPgSize cfg.previousPGList b.rows 0 (cfg.osdTree.map (osdCores coreNum)) = some pgs := by
  dsimp only [simpleInitial] at h
  split at h
  · cases h
  · next hvalid =>
    split at h
    · cases h
    · split at h
      · cases h
      · next hsize =>
        split at h
        · cases h
        · next rows hrows =>
          split at h
          · cases h
          · next pgs' hplaced =>
            obtain rfl : pgs' = pgs := InitialResult.done.inj h
            obtain ⟨nums, hnums, hplaced⟩ := Option.bind_eq_some_iff.mp hplaced
            obtain ⟨b, hb, hplaced⟩ := Option.bind_eq_some_iff.mp hplaced
            exact ⟨by omega, by omega, rows, nums, b, hrows, hnums, hb, hplaced⟩

end Balanced

/-- Two OSDs of a failure domain that take part differ by at most one in the
PGs that they have on a core. -/
theorem cores_even (cfg : OptimizeCfg) (poolPgSize coreNum : Nat) (osds : OsdInfos) (perm : List Nat)
    (draws : Nat → Nat → List Nat) {pgs : List PGConfig} (hdis : DisjointDomains cfg.osdTree)
    (hnodup : ∀ d ∈ cfg.osdTree, (d.childNode.map (·.osdid)).Nodup) (hcount : cfg.pgCount < 2 ^ 63)
    (hdraws : Draws cfg.osdTree.length perm draws)
    (h : simpleInitial cfg poolPgSize coreNum osds perm draws = .done pgs) :
    ∀ d ∈ cfg.osdTree, ∀ t ∈ d.childNode, ∀ t' ∈ d.childNode, t.coreNum = coreNum → t'.coreNum = coreNum →
      ∀ core, carried pgs t.osdid core ≤ carried pgs t'.osdid core + 1 := by
  intro d hd t ht t' ht' hc hc' core
  obtain ⟨hh, hzero, rows, nums, b, hrows, hnums, hb, hplace⟩ := simpleInitial_done h
  by_cases hs : 0 < cfg.pgSize
  · obtain ⟨hlen, hgood⟩ := chooseRows_good hh hs hdraws hrows
    obtain ⟨nums', hnums', hcounts⟩ := pgNumOnHost_counts hgood
    obtain rfl : nums = nums' := Option.some.inj (hnums.symm.trans hnums')
    have hinv : b.Inv _ _ _ := balance_keeps ⟨hlen, hgood, hcounts⟩ hb
    have hinit : Lists coreNum 0 cfg.osdTree (cfg.osdTree.map (osdCores coreNum)) := by
      refine ⟨List.length_map .., fun i e lst he hlst => ?_⟩
      rw [List.getElem?_map, he, Option.map_some, Option.some.injEq] at hlst
      exact hlst ▸ osdCores_list
    obtain ⟨hostMap', hl', hload⟩ := placePgs_load hdis hs hplace hinit (by rw [hinv.length]; omega) hinv.rows
    obtain ⟨i, hi⟩ := List.mem_iff_getElem?.mp hd
    obtain ⟨lst', hlst'⟩ : ∃ lst', hostMap'[i]? = some lst' := ⟨_, List.getElem?_eq_getElem (by
      rw [hl'.length]; exact (List.getElem?_eq_some_iff.mp hi).1)⟩
    have hcarried : ∀ t ∈ d.childNode, carried pgs t.osdid core = load lst' t.osdid core := fun t ht => by
      have := hload i d (osdCores coreNum d) lst' hi (by rw [List.getElem?_map, hi, Option.map_some]) hlst' t.osdid
        ⟨t, ht, rfl⟩ core
      rw [this, osdCores_load, Nat.zero_add]
    rw [hcarried t ht, hcarried t' ht']
    exact (hl'.lists i d lst' hi hlst').load_le (hnodup d hd) ht ht' hc hc' core
  · -- without members there are no PGs
    have hnone := hzero (by omega)
    obtain rfl : b = ⟨rows, nums⟩ := by
      rw [hnone] at hb
      exact (Option.some.inj hb).symm
    obtain rfl : rows = [] := by
      rw [hnone] at hrows
      have := (mapM_some hrows).1
      simpa [getRandIndex] using this
    obtain rfl : [] = pgs := Option.some.inj hplace
    exact Nat.zero_le _

/-- One host with two OSDs of two cores, and five PGs of one OSD. -/
def twoOsds : OptimizeCfg where
  osdTree := [⟨[1], [⟨1, 2⟩, ⟨2, 2⟩]⟩]
  pgCount := 5
  pgSize := 1
  previousPGList := fun _ => none

def twoOsdsPgs : List PGConfig :=
  match simpleInitial twoOsds 1 2 (fun _ => none) [0] (fun _ _ => []) with
  | .done pgs => pgs
  | _ => []

theorem twoOsds_even : carried twoOsdsPgs 1 0 = 2 ∧ carried twoOsdsPgs 1 0 ≤ carried twoOsdsPgs 2 0 + 1 :=
  ⟨by decide, cores_even twoOsds 1 2 (fun _ => none) [0] (fun _ _ => [])
    (List.pairwise_singleton _ _) (by decide) (by decide) ⟨.refl _, by simp⟩
      (by decide) _ (List.mem_cons_self ..) ⟨1, 2⟩
    (by decide) ⟨2, 2⟩ (by decide) rfl rfl 0⟩

end Fastblock.L5
