import Mathlib.Data.List.Dedup
import Mathlib.Data.List.Flatten

/-!
# Groups of a list by a key

A map that is filled by appending to the entry of each element's key:
`groups`. Its keys are different, no entry is empty, and the entries
together are the elements (`groups_perm`). The lists of a list are counted
together, and a map that can fail gives a list exactly if it gives each
element.
-/
namespace Fastblock.Core

variable {κ α β : Type*}

section Groups

variable [DecidableEq κ]

/-- The entries of the map, by key in the order of the last appearances. -/
def groups (l : List (κ × α)) : List (κ × List α) :=
  (l.map Prod.fst).dedup.map fun k => (k, (l.filter fun p => p.1 = k).map Prod.snd)

theorem groups_keys (l : List (κ × α)) : (groups l).map Prod.fst = (l.map Prod.fst).dedup := by
  rw [groups, List.map_map]
  exact List.map_id _

theorem groups_keys_nodup (l : List (κ × α)) : ((groups l).map Prod.fst).Nodup := by
  rw [groups_keys]
  exact List.nodup_dedup _

/-- An element is in the entry of its key. -/
theorem mem_groups {l : List (κ × α)} {g : κ × List α} (h : g ∈ groups l) {x : α} : x ∈ g.2 ↔ (g.1, x) ∈ l := by
  obtain ⟨k, hk, rfl⟩ := List.mem_map.mp h
  constructor
  · intro hx
    obtain ⟨p, hp, rfl⟩ := List.mem_map.mp hx
    obtain ⟨hpl, hpk⟩ := List.mem_filter.mp hp
    obtain rfl : p.1 = k := by simpa using hpk
    exact hpl
  · exact fun hx => List.mem_map.mpr ⟨(k, x), List.mem_filter.mpr ⟨hx, by simp⟩, rfl⟩

/-- The elements with one of some different keys, key by key. -/
theorem flatMap_filter_perm (l : List (κ × α)) {ks : List κ} (h : ks.Nodup) :
    (ks.flatMap fun k => l.filter fun p => p.1 = k).Perm (l.filter fun p => p.1 ∈ ks) := by
  induction ks with
  | nil => simp
  | cons k ks ih =>
    rw [List.nodup_cons] at h
    rw [List.flatMap_cons]
    have hsplit := List.filter_append_perm (fun p : κ × α => p.1 = k) (l.filter fun p => p.1 ∈ k :: ks)
    rw [List.filter_filter, List.filter_filter] at hsplit
    refine (List.Perm.append ?_ ((ih h.2).trans ?_)).trans hsplit
    · exact .of_eq (List.filter_congr fun p _ => by simp; tauto)
    · refine .of_eq (List.filter_congr fun p _ => ?_)
      by_cases hp : p.1 = k
      · simp [hp, h.1]
      · simp [hp]

theorem groups_perm (l : List (κ × α)) : ((groups l).flatMap Prod.snd).Perm (l.map Prod.snd) := by
  have := (flatMap_filter_perm l (List.nodup_dedup (l.map Prod.fst))).map Prod.snd
  rw [List.map_flatMap] at this
  rw [groups, List.flatMap_map]
  refine this.trans (.of_eq ?_)
  rw [List.filter_eq_self.mpr]
  intro p hp
  have hkey : p.1 ∈ (l.map Prod.fst).dedup := List.mem_dedup.mpr (List.mem_map_of_mem hp)
  simpa using hkey

end Groups

/-! ## Parts of a list -/

section Parts

variable {l l' : List α}

/-- The number of an element in some lists when one of them changes. -/
theorem count_flatten_set [BEq α] {ls : List (List α)} {i : Nat} (h : ls[i]? = some l) (l' : List α) (x : α) :
    (ls.set i l').flatten.count x + l.count x = ls.flatten.count x + l'.count x := by
  induction ls generalizing i with
  | nil => simp at h
  | cons r ls ih =>
    cases i with
    | zero =>
      obtain rfl : r = l := by simpa using h
      simp only [List.set_cons_zero, List.flatten_cons, List.count_append]
      omega
    | succ i =>
      have := ih (by simpa using h)
      simp only [List.set_cons_succ, List.flatten_cons, List.count_append]
      omega

/-- An element that is at most once in each of some lists. -/
theorem count_flatten_le [BEq α] {ls : List (List α)} (x : α) (h : ∀ l ∈ ls, l.count x ≤ 1) :
    ls.flatten.count x ≤ ls.length := by
  induction ls with
  | nil => simp
  | cons l ls ih =>
    have hl := h l (List.mem_cons_self ..)
    have := ih fun r hr => h r (List.mem_cons_of_mem _ hr)
    simp only [List.flatten_cons, List.count_append, List.length_cons]
    omega

/-- An element that is once in each of some lists. -/
theorem count_flatten_eq [BEq α] {ls : List (List α)} (x : α) (h : ∀ l ∈ ls, l.count x = 1) :
    ls.flatten.count x = ls.length := by
  induction ls with
  | nil => simp
  | cons l ls ih =>
    rw [List.flatten_cons, List.count_append, h l (List.mem_cons_self ..), ih fun r hr =>
      h r (List.mem_cons_of_mem _ hr), List.length_cons, Nat.add_comm]

/-- An element that only one of some lists has, found by its key. -/
theorem countP_flatMap_of_key {l : List β} {k : β → κ} (hn : (l.map k).Nodup) {f : β → List α} {p : α → Bool} {b : β}
    (hb : b ∈ l) (h : ∀ b' ∈ l, k b' ≠ k b → (f b').countP p = 0) : (l.flatMap f).countP p = (f b).countP p := by
  induction l with
  | nil => simp at hb
  | cons a l ih =>
    rw [List.map_cons, List.nodup_cons] at hn
    rw [List.flatMap_cons, List.countP_append]
    rcases List.mem_cons.mp hb with rfl | hb
    · have hrest : (l.flatMap f).countP p = 0 := by
        refine List.countP_eq_zero.mpr fun x hx => ?_
        obtain ⟨b', hb', hx⟩ := List.mem_flatMap.mp hx
        have hne : k b' ≠ k b := fun hk => hn.1 (hk ▸ List.mem_map_of_mem hb')
        exact List.countP_eq_zero.mp (h b' (List.mem_cons_of_mem _ hb') hne) x hx
      omega
    · have hne : k a ≠ k b := fun hk => hn.1 (hk ▸ List.mem_map_of_mem hb)
      rw [h a (List.mem_cons_self ..) hne, ih hn.2 hb fun b' hb' => h b' (List.mem_cons_of_mem _ hb'), Nat.zero_add]

theorem length_eq_one_iff_existsUnique (h : l.Nodup) : l.length = 1 ↔ ∃! x, x ∈ l := by
  rw [List.length_eq_one_iff]
  constructor
  · intro ⟨a, ha⟩
    exact ⟨a, by simp [ha], fun b hb => by simpa [ha] using hb⟩
  · intro ⟨a, ha, hu⟩
    cases l with
    | nil => simp at ha
    | cons b l =>
      obtain rfl := hu b (List.mem_cons_self ..)
      refine ⟨b, ?_⟩
      cases l with
      | nil => rfl
      | cons c l =>
        obtain rfl := hu c (by simp)
        simp at h

end Parts

/-- A map that can fail gives a list exactly if it gives each element. -/
theorem mapM_eq_some_iff {f : α → Option β} {l : List α} {r : List β} : l.mapM f = some r ↔ l.map f = r.map some := by
  induction l generalizing r with
  | nil =>
    rw [List.mapM_nil, List.map_nil, eq_comm (a := ([] : List (Option β))), List.map_eq_nil_iff]
    exact ⟨fun h => (Option.some.inj h).symm, fun h => congrArg some h.symm⟩
  | cons a l ih =>
    simp only [List.mapM_cons, Option.bind_eq_bind, Option.bind_eq_some_iff, Option.pure_def, Option.some.injEq]
    constructor
    · intro ⟨b, hb, bs, hbs, hr⟩
      rw [← hr, List.map_cons, List.map_cons, hb, ih.mp hbs]
    · intro h
      cases r with
      | nil => simp at h
      | cons b bs =>
        rw [List.map_cons, List.map_cons, List.cons.injEq] at h
        exact ⟨b, h.1, bs, ih.mpr h.2, rfl⟩

theorem exists_mapM_ok {ε : Type*} {f : α → Except ε β} {l : List α} :
    (∃ r, l.mapM f = .ok r) ↔ ∀ a ∈ l, ∃ b, f a = .ok b := by
  induction l with
  | nil => simp [pure, Except.pure]
  | cons a l ih =>
    rw [List.forall_mem_cons, ← ih, List.mapM_cons]
    cases f a with
    | error e => simp [bind, Except.bind]
    | ok b => cases l.mapM f <;> simp [bind, Except.bind, pure, Except.pure]

end Fastblock.Core
