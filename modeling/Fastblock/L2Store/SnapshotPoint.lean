import Fastblock.L2Store.Recovery

/-!
# The copies of a recovery are those of one point of the log

If no apply is in progress and no other recovery is when a recovery
starts, the table does not change until its index is recorded: polls find
`_snapshot_in_progress`. `StoreInv` says what the table holds at each
point of an apply, and `CopyInv` how far the copies are.
-/
namespace Fastblock.L2

open Fastblock.Core (Lts)

/-! ## The table -/

/-- The blobs of the objects. -/
def Table.origins (t : Table) (name : Name) : Option Origin := (t.lookup name).map (·.origin)

section Origins

variable (t : Table) (name : Name)

theorem origins_insert (o : Object) :
    Table.origins (t.insert name o) = Function.update t.origins name (some o.origin) := by
  funext n
  by_cases hn : n = name
  · subst hn
    simp [Table.origins]
  · simp [Table.origins, hn]

theorem origins_erase : Table.origins (t.erase name) = Function.update t.origins name none := by
  funext n
  by_cases hn : n = name
  · subst hn
    simp [Table.origins]
  · simp [Table.origins, hn]

theorem lookup_update (f : Object → Object) (n : Name) :
    (t.update name f).lookup n = if n = name then (t.lookup name).map f else t.lookup n := by
  unfold Table.update
  split
  · next o ho =>
    by_cases hn : n = name
    · subst hn
      simp [ho]
    · simp [hn]
  · next ho =>
    split
    · next hn =>
      subst hn
      simp [ho]
    · rfl

theorem mem_update (f : Object → Object) (n : Name) : n ∈ t.update name f ↔ n ∈ t := by
  rw [← AList.lookup_isSome, ← AList.lookup_isSome, lookup_update]
  split
  · next hn =>
    subst hn
    simp
  · rfl

/-- A change of the copy only. -/
theorem origins_update {f : Object → Object} (hf : ∀ o, (f o).origin = o.origin) :
    Table.origins (t.update name f) = t.origins := by
  funext n
  rw [Table.origins, lookup_update]
  split
  · next hn =>
    subst hn
    rw [Option.map_map, Table.origins]
    exact congrFun (congrArg Option.map (funext hf)) _
  · rfl

end Origins

section Inv

variable (blank : Content) (log : Nat → Command)

/-- The blob of an object is what the log up to `k` asks for. An entry
without a blob is one that was deleted while it had a copy: it stays, a
later write does not get its blob into it, and no copy of it can be
made. -/
def Holds (k : Nat) (origins : Name → Option Origin) (name : Name) : Prop :=
  match origins name with
  | none => effect blank log k name = none
  | some .gone => True
  | some (.closed _) => False
  | some (.opened c) => effect blank log k name = some c

/-- The blobs while a write is not on the device. -/
def WriteInv (k : Nat) (origins : Name → Option Origin) (name : Name) : Target → Prop
  | .existing => (∀ n, Holds blank log k origins n) ∧ ∃ c, origins name = some (.opened c)
  | .created => (∀ n ≠ name, Holds blank log k origins n) ∧ effect blank log k name = none ∧
      origins name = some (.opened blank)
  | .lost => (∀ n, Holds blank log k origins n) ∧ origins name = some .gone

/-- The blobs while an apply is in progress. -/
def ApplyInv (k : Nat) (origins : Name → Option Origin) : Apply → Prop
  | .fetching => ∀ n, Holds blank log k origins n
  | .creating name offset data | .opening name offset data => log (k + 1) = .write name offset data ∧
      (∀ n, Holds blank log k origins n) ∧ (origins name = none ∨ origins name = some .gone)
  | .reading name offset data target | .writing name offset data target =>
      log (k + 1) = .write name offset data ∧ WriteInv blank log k origins name target
  | .written target => (∀ n, Holds blank log (k + 1) origins n) ∧ (target = .lost → ∀ n, Holds blank log k origins n)
  | .closing name => log (k + 1) = .delete name ∧ ∀ n, Holds blank log k origins n
  | .deleting name => log (k + 1) = .delete name ∧ ∀ n ≠ name, Holds blank log k origins n

def StoreInv (s : State) : Prop :=
  match s.apply with
  | none => ∀ n, Holds blank log s.lastAppliedIdx s.table.origins n
  | some (idx, a) => idx = s.lastAppliedIdx + 1 ∧ ApplyInv blank log s.lastAppliedIdx s.table.origins a

/-! ## Applies -/

variable {blank log} {k : Nat} {origins : Name → Option Origin} {s s' : State}

theorem Holds.update_ne {name n : Name} {o : Option Origin} (hn : n ≠ name) (h : Holds blank log k origins n) :
    Holds blank log k (Function.update origins name o) n := by
  unfold Holds
  rwa [Function.update_of_ne hn]

/-- An entry that does not touch the object. -/
theorem Holds.succ_of_effect {n : Name} (he : effect blank log (k + 1) n = effect blank log k n)
    (h : Holds blank log k origins n) : Holds blank log (k + 1) origins n := by
  unfold Holds at *
  split <;> simp_all

theorem effect_write {name n : Name} {offset : Nat} {data : List UInt8}
    (hlog : log (k + 1) = .write name offset data) :
    effect blank log (k + 1) n =
      if n = name then some (((effect blank log k n).getD blank).write offset data) else effect blank log k n := by
  rw [effect, hlog]

theorem effect_delete {name n : Name} (hlog : log (k + 1) = .delete name) :
    effect blank log (k + 1) n = if n = name then none else effect blank log k n := by
  rw [effect, hlog]

theorem effect_other {n : Name} (hlog : log (k + 1) = .other) : effect blank log (k + 1) n = effect blank log k n := by
  rw [effect, hlog]

theorem StoreInv.congr (h : StoreInv blank log s) (ha : s'.apply = s.apply) (hl : s'.lastAppliedIdx = s.lastAppliedIdx)
    (ho : s'.table.origins = s.table.origins) : StoreInv blank log s' := by
  unfold StoreInv at *
  rwa [ha, hl, ho]

theorem StoreInv.poll (h : StoreInv blank log s) : StoreInv blank log s.poll := by
  unfold State.poll
  split
  · exact h
  · next hnot =>
    have hnone : s.apply = none := by
      cases ha : s.apply with
      | none => rfl
      | some p => exact absurd (.inr (.inr (by rw [ha]; rfl))) hnot
    rw [StoreInv, hnone] at h
    exact ⟨rfl, h⟩

/-- The next entry is applied. -/
theorem storeInv_applied (idx : Nat) (hidx : idx = s.lastAppliedIdx + 1)
    (h : ∀ n, Holds blank log (s.lastAppliedIdx + 1) s.table.origins n) : StoreInv blank log (s.applied idx true) := by
  subst hidx
  exact h

theorem storeInv_not_applied (idx : Nat) (h : ∀ n, Holds blank log s.lastAppliedIdx s.table.origins n) :
    StoreInv blank log (s.applied idx false) := h

theorem storeInv_blobWrite {idx offset : Nat} {name : Name} {data : List UInt8} {target : Target}
    (hidx : idx = s.lastAppliedIdx + 1) (hlog : log (s.lastAppliedIdx + 1) = .write name offset data)
    (h : WriteInv blank log s.lastAppliedIdx s.table.origins name target) :
    StoreInv blank log (s.blobWrite idx name offset data target) := by
  refine ⟨hidx, ?_⟩
  split <;> exact ⟨hlog, h⟩

/-- An object that is not open does not change by a delete. -/
theorem holds_delete {name : Name} (hlog : log (k + 1) = .delete name) (h : ∀ n ≠ name, Holds blank log k origins n)
    (hname : origins name = none ∨ origins name = some .gone) (n : Name) : Holds blank log (k + 1) origins n := by
  by_cases hn : n = name
  · subst hn
    unfold Holds
    rcases hname with hname | hname <;> rw [hname]
    · exact (effect_delete hlog).trans (if_pos rfl)
    · trivial
  · exact (h n hn).succ_of_effect ((effect_delete hlog).trans (if_neg hn))

theorem lookup_cases (t : Table) (name : Name) :
    (∃ c r, t.lookup name = some ⟨.opened c, r⟩) ∨ (∃ c, t.origins name = some (.closed c)) ∨
      t.origins name = none ∨ t.origins name = some .gone := by
  unfold Table.origins
  cases ho : t.lookup name with
  | none => exact .inr (.inr (.inl rfl))
  | some o =>
    obtain ⟨origin, r⟩ := o
    cases origin with
    | gone => exact .inr (.inr (.inr rfl))
    | closed c => exact .inr (.inl ⟨c, rfl⟩)
    | opened c => exact .inl ⟨c, r, rfl⟩

/-- Without an apply halfway a blob is open or there is none. -/
theorem Holds.cases {t : Table} {name : Name} (h : Holds blank log k t.origins name) :
    (∃ c r, t.lookup name = some ⟨.opened c, r⟩) ∨ t.origins name = none ∨ t.origins name = some .gone := by
  rcases lookup_cases t name with ho | ⟨c, hc⟩ | ho
  · exact .inl ho
  · rw [Holds, hc] at h
    exact h.elim
  · exact .inr ho

theorem not_opened {t : Table} {name : Name} (h : t.origins name = none ∨ t.origins name = some .gone) (c : Content)
    (r : Option Content) : t.lookup name ≠ some ⟨.opened c, r⟩ := by
  intro ho
  rw [Table.origins, ho] at h
  simp at h

theorem StoreInv.applyEntry {idx : Nat} (h : StoreInv blank log s) (ha : s.apply = some (idx, .fetching)) :
    StoreInv blank log (s.applyEntry idx (log idx)) := by
  rw [StoreInv, ha] at h
  obtain ⟨rfl, h⟩ := h
  have h : ∀ n, Holds blank log s.lastAppliedIdx s.table.origins n := h
  unfold State.applyEntry
  cases hlog : log (s.lastAppliedIdx + 1) with
  | write name offset data =>
    rcases (h name).cases with ⟨c, r, ho⟩ | ho
    · simp only [ho]
      exact storeInv_blobWrite rfl hlog ⟨h, c, by rw [Table.origins, ho]; rfl⟩
    · dsimp only
      split
      · next c r hc => exact absurd hc (not_opened ho c r)
      · exact ⟨rfl, hlog, h, ho⟩
  | delete name =>
    rcases (h name).cases with ⟨c, r, ho⟩ | ho
    · simp only [ho]
      exact ⟨rfl, hlog, h⟩
    · dsimp only
      split
      · next c r hc => exact absurd hc (not_opened ho c r)
      · exact storeInv_applied _ rfl (holds_delete hlog (fun n _ => h n) ho)
  | other => exact storeInv_applied _ rfl fun n => (h n).succ_of_effect (effect_other hlog)

/-- The blob of the object gets the bytes of the next entry. -/
theorem holds_write {t : Table} {name : Name} {offset : Nat} {data : List UInt8} {c : Content}
    (hlog : log (k + 1) = .write name offset data) (hc : t.origins name = some (.opened c))
    (heff : (effect blank log k name).getD blank = c) (hold : ∀ n ≠ name, Holds blank log k t.origins n) (n : Name) :
    Holds blank log (k + 1) (Table.origins (Table.update t name (·.write offset data))) n := by
  by_cases hn : n = name
  · subst hn
    obtain ⟨o, ho, hoc⟩ := Option.map_eq_some_iff.mp hc
    unfold Holds Table.origins
    rw [lookup_update, if_pos rfl, ho]
    simp only [Option.map_some, Object.write, hoc]
    rw [effect_write hlog, if_pos rfl, heff]
  · have hsame : Table.origins (Table.update t name (·.write offset data)) n = t.origins n := by
      rw [Table.origins, lookup_update, if_neg hn, Table.origins]
    have hnext := (hold n hn).succ_of_effect ((effect_write hlog).trans (if_neg hn))
    unfold Holds at *
    rwa [hsame]

theorem StoreInv.writeLands (h : StoreInv blank log s) (hs : s.writeLands = some s') : StoreInv blank log s' := by
  unfold State.writeLands at hs
  split at hs
  · next idx name offset data target ha =>
    rw [StoreInv, ha] at h
    obtain ⟨rfl, hlog, hw⟩ := h
    obtain rfl := Option.some.inj hs
    refine ⟨rfl, ?_⟩
    cases target with
    | existing =>
      obtain ⟨hold, c, hc⟩ := hw
      have heff : effect blank log s.lastAppliedIdx name = some c := by
        have := hold name
        rwa [Holds, hc] at this
      exact ⟨holds_write hlog hc (by rw [heff]; rfl) fun n _ => hold n, nofun⟩
    | created =>
      obtain ⟨hold, heff, hc⟩ := hw
      exact ⟨holds_write hlog hc (by rw [heff]; rfl) hold, nofun⟩
    | lost =>
      obtain ⟨hold, hgone⟩ := hw
      refine ⟨fun n => ?_, fun _ => hold⟩
      by_cases hn : n = name
      · subst hn
        rw [Holds]
        simp [hgone]
      · exact (hold n).succ_of_effect ((effect_write hlog).trans (if_neg hn))
  · cases hs

end Inv

/-- The apply has changed the table or a blob in it, and its entry is not
applied. -/
def Apply.changed : Apply → Bool
  | .reading _ _ _ target | .writing _ _ _ target => target = .created
  | .written target => target ≠ .lost
  | .deleting _ => true
  | .fetching | .creating _ _ _ | .opening _ _ _ | .closing _ => false

section Done

variable {blank : Content} {log : Nat → Command} {s s' : State}

theorem WriteInv.holds {k : Nat} {origins : Name → Option Origin} {name : Name} {target : Target}
    (h : WriteInv blank log k origins name target) (ht : target ≠ .created) : ∀ n, Holds blank log k origins n := by
  cases target with
  | existing => exact h.1
  | created => exact absurd rfl ht
  | lost => exact h.1

theorem StoreInv.applyDone {idx : Nat} {a : Apply} {ok : Bool} (h : StoreInv blank log s)
    (ha : s.apply = some (idx, a))
    (hok : ok = false → a.changed = false) (hs : s.applyDone blank idx ok a = some s') : StoreInv blank log s' := by
  rw [StoreInv, ha] at h
  obtain ⟨rfl, h⟩ := h
  cases a with
  | fetching => cases hs
  | creating name offset data =>
    obtain rfl := Option.some.inj hs
    split
    · exact ⟨rfl, h⟩
    · exact storeInv_not_applied _ h.2.1
  | opening name offset data =>
    obtain ⟨hlog, hold, hname⟩ := h
    obtain rfl := Option.some.inj hs
    split
    · exact storeInv_not_applied _ hold
    · split
      · next hmem =>
        refine storeInv_blobWrite rfl hlog ⟨hold, hname.resolve_left ?_⟩
        simpa [Table.origins, AList.lookup_eq_none] using hmem
      · next hmem =>
        refine storeInv_blobWrite rfl hlog ⟨?_, ?_, ?_⟩
        · intro n hn
          rw [origins_insert]
          exact (hold n).update_ne hn
        · have := hold name
          rwa [Holds, Table.origins, AList.lookup_eq_none.mpr hmem] at this
        · rw [origins_insert, Function.update_self]
  | reading name offset data target =>
    obtain rfl := Option.some.inj hs
    split
    · exact ⟨rfl, h⟩
    · next hnot =>
      refine storeInv_not_applied _ (h.2.holds ?_)
      simpa [Apply.changed] using hok (by simpa using hnot)
  | writing name offset data target =>
    cases ok with
    | true => cases hs
    | false =>
      obtain rfl := Option.some.inj hs
      refine storeInv_not_applied _ (h.2.holds ?_)
      simpa [Apply.changed] using hok rfl
  | written target =>
    obtain rfl := Option.some.inj hs
    cases ok with
    | true => exact storeInv_applied _ rfl h.1
    | false => exact storeInv_not_applied _ (h.2 (by simpa [Apply.changed] using hok rfl))
  | closing name =>
    obtain rfl := Option.some.inj hs
    split
    · refine ⟨rfl, h.1, ?_⟩
      intro n hn
      rw [origins_insert]
      exact (h.2 n).update_ne hn
    · exact storeInv_not_applied _ h.2
  | deleting name =>
    obtain ⟨hlog, hold⟩ := h
    obtain rfl := Option.some.inj hs
    cases ok with
    | false => exact absurd (hok rfl) (by simp [Apply.changed])
    | true =>
      simp only [Bool.not_true, Bool.false_eq_true, if_false]
      split
      · refine storeInv_applied _ rfl (holds_delete hlog ?_ ?_)
        · intro n hn
          rw [origins_erase]
          exact (hold n hn).update_ne hn
        · exact .inl (by rw [origins_erase, Function.update_self])
      · refine storeInv_applied _ rfl (holds_delete hlog ?_ ?_)
        · intro n hn
          rw [origins_insert]
          exact (hold n hn).update_ne hn
        · exact .inr (by rw [origins_insert, Function.update_self])
      · next hnone =>
        refine storeInv_applied _ rfl (holds_delete hlog hold (.inl ?_))
        rw [Table.origins, hnone]
        rfl

end Done

/-! ## The copies -/

/-- The object has a copy of what it holds. -/
def Copied (table : Table) (name : Name) : Prop := ∃ c, table.lookup name = some ⟨.opened c, some c⟩

/-- How far the creation of the copies is: those before the current one are
done, those of `rest` follow. -/
structure CopyInv (s : State) (c : Creation) (rest : List Name) : Prop where
  names : ∃ done, (s.recoveries c.recv).objNames = done ++ c.name :: rest ∧
    (s.recoveries c.recv).idx = done.length + 1 ∧
    ∀ name ∈ done, Copied s.table name
  keys : ∀ name, name ∈ (s.recoveries c.recv).objNames ↔ name ∈ s.table
  idle : s.apply = none
  flag : s.snapshotInProgress = true
  copy : match c.copy with
    | .submitted => True
    | .taken content => ∃ r, s.table.lookup c.name = some ⟨.opened content, r⟩
    | .opening => Copied s.table c.name

/-- There is one recovery at most, which creates copies or sends them. -/
def RecoveryInv (s : State) : Prop :=
  match s.obr with
  | none => s.creations = [] ∧ s.sending = 0
  | some r => (s.sending = 0 ∧ ∃ c rest, s.creations = [c] ∧ c.recv = r ∧ CopyInv s c rest) ∨
      (s.sending = 1 ∧ s.creations = [])

section Copies

variable {blank : Content} {log : Nat → Command} {s s' : State} {i : Nat} {ok : Bool} {c : Creation} {rest : List Name}

theorem RecoveryInv.creations (h : RecoveryInv s) :
    s.creations = [] ∨ s.sending = 0 ∧ ∃ c rest, s.creations = [c] ∧ s.obr = some c.recv ∧ CopyInv s c rest := by
  unfold RecoveryInv at h
  split at h
  · exact .inl h.1
  · next r hr =>
    rcases h with ⟨hsend, c, rest, hc, rfl, hcopy⟩ | ⟨-, hc⟩
    · exact .inr ⟨hsend, c, rest, hc, hr, hcopy⟩
    · exact .inl hc

/-- What the invariant does not mention does not matter. -/
theorem RecoveryInv.frame (h : RecoveryInv s) (hobr : s'.obr = s.obr) (hc : s'.creations = s.creations)
    (hsend : s'.sending = s.sending)
    (hcopy : s.creations = [] ∨ s'.table = s.table ∧ s'.recoveries = s.recoveries ∧ s'.apply = s.apply ∧
      s'.snapshotInProgress = s.snapshotInProgress) : RecoveryInv s' := by
  unfold RecoveryInv at *
  rw [hobr, hc, hsend]
  split at h
  · exact h
  · next r hr =>
    rcases h with ⟨hs, c, rest, hcr, hrecv, hinv⟩ | h
    · rcases hcopy with hnil | ⟨ht, hr, ha, hf⟩
      · exact absurd (hnil.symm.trans hcr) (by simp)
      · exact .inl ⟨hs, c, rest, hcr, hrecv, by rw [hr, ht]; exact hinv.names, by rw [hr, ht]; exact hinv.keys,
          ha.trans hinv.idle, hf.trans hinv.flag, by rw [ht]; exact hinv.copy⟩
    · exact .inr h

/-- No copies are created while an apply is in progress. -/
theorem RecoveryInv.creations_of_apply (h : RecoveryInv s) (ha : s.apply ≠ none) : s.creations = [] := by
  rcases h.creations with hc | ⟨-, c, rest, -, -, hinv⟩
  · exact hc
  · exact absurd hinv.idle ha

theorem RecoveryInv.poll (h : RecoveryInv s) : RecoveryInv s.poll := by
  unfold State.poll
  split
  · exact h
  · next hnot =>
    refine h.frame rfl rfl rfl ?_
    rcases h.creations with hc | ⟨-, c, rest, -, -, hinv⟩
    · exact .inl hc
    · exact absurd (.inl hinv.flag) hnot

theorem recoveryInv_createFailed (h : s.creations = [c]) (hsend : s.sending = 0) : RecoveryInv (s.createFailed 0) := by
  simp [RecoveryInv, State.createFailed, h, hsend]

theorem RecoveryInv.recover {names : List Name} (h : RecoveryInv s) (ha : s.apply = none) (hobr : s.obr = none)
    (hs : s.recover names = some s') : RecoveryInv s' := by
  unfold State.recover at hs
  rw [RecoveryInv, hobr] at h
  split at hs
  · cases hs
  · next name rest =>
    split at hs
    · next hperm =>
      obtain rfl := Option.some.inj hs
      refine .inl ⟨h.2, _, rest, by rw [h.1]; rfl, rfl, ⟨[], ?_, ?_, by simp⟩, ?_, ha, rfl, trivial⟩
      · simp
      · simp
      · intro n
        simpa [AList.mem_keys] using hperm.mem_iff
    · cases hs

theorem CopyInv.taken {content : Content} {o : Object} (hinv : CopyInv s c rest) (hstore : StoreInv blank log s)
    (ho : s.table.lookup c.name = some o) (hc : o.origin.content = some content) :
    ∃ r, s.table.lookup c.name = some ⟨.opened content, r⟩ := by
  rw [StoreInv, hinv.idle] at hstore
  rcases (hstore c.name).cases with ⟨content', r, ho'⟩ | hno
  · obtain rfl := Option.some.inj (ho'.symm.trans ho)
    obtain rfl := Option.some.inj hc
    exact ⟨r, ho⟩
  · rw [Table.origins, ho] at hno
    rcases hno with hno | hno
    · cases hno
    · have hgone : o.origin = .gone := Option.some.inj hno
      rw [hgone] at hc
      cases hc

theorem RecoveryInv.snapshotTaken (h : RecoveryInv s) (hstore : StoreInv blank log s)
    (hs : s.snapshotTaken i = some s') : RecoveryInv s' := by
  obtain ⟨c, hc, hs⟩ := Option.bind_eq_some_iff.mp hs
  obtain ⟨o, ho, hs⟩ := Option.bind_eq_some_iff.mp hs
  obtain ⟨content, hcontent, hs⟩ := Option.bind_eq_some_iff.mp hs
  rcases h.creations with hnil | ⟨hsend, c', rest, hcr, hobr, hinv⟩
  · rw [hnil] at hc
    cases hc
  · rw [hcr, List.getElem?_singleton] at hc
    split at hc
    · next hi =>
      subst hi
      obtain rfl := Option.some.inj hc
      split at hs
      · obtain rfl := Option.some.inj hs
        rw [RecoveryInv]
        simp only [hobr]
        exact .inl ⟨hsend, { c' with copy := .taken content }, rest, by rw [hcr]; rfl, rfl, hinv.names, hinv.keys,
          hinv.idle, hinv.flag, hinv.taken hstore ho hcontent⟩
      · cases hs
    · cases hc

/-- The copy of the current object is in the table. -/
theorem CopyInv.copied {content : Content} (hinv : CopyInv s c rest) (hc : c.copy = .taken content) {name : Name}
    (h : name = c.name ∨ Copied s.table name) :
    Copied (Table.update s.table c.name fun o => { o with recover := some content }) name := by
  have hcopy := hinv.copy
  rw [hc] at hcopy
  obtain ⟨r, ho⟩ := hcopy
  unfold Copied
  rw [lookup_update]
  by_cases hn : name = c.name
  · rw [if_pos hn, ho]
    exact ⟨content, rfl⟩
  · rw [if_neg hn]
    exact h.resolve_left hn

/-- What a recovery that records its index leaves. -/
def Exact (blank : Content) (log : Nat → Command) (s : State) (names : List Name) : Prop :=
  ∀ name, s.copy names name = effect blank log s.snapshotIndex name

theorem CopyInv.exact (hinv : CopyInv s c []) (hstore : StoreInv blank log s) (hcur : Copied s.table c.name) :
    Exact blank log (s.created i) (s.recoveries c.recv).objNames := by
  intro name
  obtain ⟨done, hnames, -, hdone⟩ := hinv.names
  rw [StoreInv, hinv.idle] at hstore
  have hholds := hstore name
  change (if name ∈ (s.recoveries c.recv).objNames then (s.table.lookup name).bind (·.recover) else none) =
    effect blank log s.lastAppliedIdx name
  split
  · next hmem =>
    obtain ⟨content, ho⟩ : Copied s.table name := by
      rw [hnames] at hmem
      rcases List.mem_append.mp hmem with hmem | hmem
      · exact hdone name hmem
      · obtain rfl := List.mem_singleton.mp hmem
        exact hcur
    rw [Holds, Table.origins, ho] at hholds
    rw [ho]
    exact hholds.symm
  · next hmem =>
    have hnone := AList.lookup_eq_none.mpr (mt (hinv.keys name).mpr hmem)
    rw [Holds, Table.origins, hnone] at hholds
    exact hholds.symm

theorem CopyInv.createContinue {out : Option (List Name)} (hinv : CopyInv s c rest) (hc : s.creations = [c])
    (hobr : s.obr = some c.recv) (hsend : s.sending = 0) (hcur : Copied s.table c.name)
    (hstore : StoreInv blank log s) (hs : s.createContinue 0 c.recv = (s', out)) :
    RecoveryInv s' ∧ ∀ names ∈ out, Exact blank log s' names := by
  obtain ⟨done, hnames, hidx, hdone⟩ := hinv.names
  unfold State.createContinue at hs
  dsimp only at hs
  have hnext : (s.recoveries c.recv).objNames[(s.recoveries c.recv).idx]? = rest.head? := by
    rw [hnames, hidx, List.getElem?_append_right (by omega)]
    simp [List.head?_eq_getElem?]
  rw [hnext] at hs
  cases rest with
  | nil =>
    obtain ⟨rfl, rfl⟩ := Prod.mk.inj hs
    refine ⟨?_, ?_⟩
    · rw [RecoveryInv]
      simp only [State.created, hobr]
      exact .inr ⟨by rw [hsend], by rw [hc]; rfl⟩
    · rintro names ⟨⟩
      exact hinv.exact hstore hcur
  | cons name rest =>
    have hmem : name ∈ s.table := (hinv.keys name).mp (by rw [hnames]; simp)
    simp only [List.head?_cons, if_pos hmem] at hs
    obtain ⟨rfl, rfl⟩ := Prod.mk.inj hs
    refine ⟨?_, by simp⟩
    rw [RecoveryInv]
    simp only [hobr]
    refine .inl ⟨hsend, ⟨c.recv, name, .submitted⟩, rest, by rw [hc]; rfl, rfl, ?_, ?_, hinv.idle, hinv.flag, trivial⟩
    · refine ⟨done ++ [c.name], ?_, ?_, ?_⟩
      · simp [hnames]
      · simp [hidx]
      · intro n hn
        rcases List.mem_append.mp hn with hn | hn
        · exact hdone n hn
        · obtain rfl := List.mem_singleton.mp hn
          exact hcur
    · intro n
      simpa using hinv.keys n

theorem RecoveryInv.copyDone {out : Option (List Name)} (h : RecoveryInv s) (hstore : StoreInv blank log s)
    (hc : s.creations[i]? = some c) (hs : s.copyDone i ok c = some (s', out)) :
    RecoveryInv s' ∧ ∀ names ∈ out, Exact blank log s' names := by
  rcases h.creations with hnil | ⟨hsend, c', rest, hcr, hobr, hinv⟩
  · rw [hnil] at hc
    cases hc
  rw [hcr, List.getElem?_singleton] at hc
  split at hc
  · next hi =>
    subst hi
    obtain rfl := Option.some.inj hc
    have hfail := recoveryInv_createFailed hcr hsend
    unfold State.copyDone at hs
    split at hs
    · split at hs
      · cases hs
      · cases hs
        exact ⟨hfail, by simp⟩
    · next content hcopy =>
      split at hs
      · cases hs
        refine ⟨?_, by simp⟩
        rw [RecoveryInv]
        simp only [hobr]
        refine .inl ⟨hsend, { c' with copy := .opening }, rest, by rw [hcr]; rfl, rfl, ?_, ?_, hinv.idle, hinv.flag,
          hinv.copied hcopy (.inl rfl)⟩
        · obtain ⟨done, hnames, hidx, hdone⟩ := hinv.names
          exact ⟨done, hnames, hidx, fun n hn => hinv.copied hcopy (.inr (hdone n hn))⟩
        · intro n
          rw [mem_update]
          exact hinv.keys n
      · cases hs
        exact ⟨hfail, by simp⟩
    · next hcopy =>
      have hcur := hinv.copy
      rw [hcopy] at hcur
      split at hs
      · exact hinv.createContinue hcr hobr hsend hcur hstore (Option.some.inj hs)
      · cases hs
        exact ⟨hfail, by simp⟩
  · cases hc

theorem StoreInv.copyDone {out : Option (List Name)} (h : StoreInv blank log s)
    (hs : s.copyDone i ok c = some (s', out)) : StoreInv blank log s' := by
  unfold State.copyDone at hs
  split at hs
  · split at hs
    · cases hs
    · cases hs
      exact h.congr rfl rfl rfl
  · split at hs
    · cases hs
      exact h.congr rfl rfl (origins_update _ _ fun _ => rfl)
    · cases hs
      exact h.congr rfl rfl rfl
  · split at hs
    · unfold State.createContinue at hs
      dsimp only at hs
      split at hs
      · cases hs
        exact h.congr rfl rfl rfl
      · split at hs
        · cases hs
          exact h.congr rfl rfl rfl
        · cases hs
          exact h.congr rfl rfl rfl
    · cases hs
      exact h.congr rfl rfl rfl

end Copies

/-! ## Runs -/

/-- A recovery starts without an apply in progress and without another
recovery, and no call of an apply fails after the apply has changed an
object. -/
def SnapshotSafe (s : State) : Label → Prop
  | .recover _ => s.apply.isNone = true ∧ s.obr.isNone = true
  | .applyDone false => s.apply.all (fun p => !p.2.changed) = true
  | _ => True

/-- A leader from a state on in which nothing is in progress and every
object is what the applied entries ask for. -/
def leader (blank : Content) (log : Nat → Command) : Lts State Label where
  init s := s.apply = none ∧ s.obr = none ∧ s.creations = [] ∧ s.sending = 0 ∧
    ∀ name, Holds blank log s.lastAppliedIdx s.table.origins name
  step s l s' := ∃ out, s.step blank log l = some (s', out)

section Run

variable {blank : Content} {log : Nat → Command} {s s' : State}

/-- Applies do not touch recoveries. -/
def SameRecovery (s s' : State) : Prop := s'.obr = s.obr ∧ s'.creations = s.creations ∧ s'.sending = s.sending

theorem applyEntry_same (idx : Nat) (c : Command) : SameRecovery s (s.applyEntry idx c) := by
  unfold State.applyEntry
  split
  · split <;> exact ⟨rfl, rfl, rfl⟩
  · split <;> exact ⟨rfl, rfl, rfl⟩
  · exact ⟨rfl, rfl, rfl⟩

theorem applyDone_same {idx : Nat} {ok : Bool} {a : Apply} (hs : s.applyDone blank idx ok a = some s') :
    SameRecovery s s' := by
  cases a with
  | fetching => cases hs
  | writing name offset data target =>
    cases ok with
    | true => cases hs
    | false =>
      cases hs
      exact ⟨rfl, rfl, rfl⟩
  | opening name offset data =>
    cases hs
    split
    · exact ⟨rfl, rfl, rfl⟩
    · split <;> exact ⟨rfl, rfl, rfl⟩
  | written target =>
    cases hs
    exact ⟨rfl, rfl, rfl⟩
  | deleting name =>
    cases hs
    split
    · exact ⟨rfl, rfl, rfl⟩
    · split <;> exact ⟨rfl, rfl, rfl⟩
  | creating | reading | closing =>
    cases hs
    split <;> exact ⟨rfl, rfl, rfl⟩

theorem RecoveryInv.of_apply (h : RecoveryInv s) (ha : s.apply ≠ none) (hs : SameRecovery s s') : RecoveryInv s' :=
  h.frame hs.1 hs.2.1 hs.2.2 (.inl (h.creations_of_apply ha))

/-- Copies are sent by a recovery that has created them. -/
theorem RecoveryInv.creations_of_sending (h : RecoveryInv s) (hsend : s.sending ≠ 0) :
    s.creations = [] ∧ s.sending = 1 := by
  unfold RecoveryInv at h
  split at h
  · exact absurd h.2 hsend
  · rcases h with ⟨h0, -⟩ | ⟨h1, hnil⟩
    · exact absurd h0 hsend
    · exact ⟨hnil, h1⟩

theorem snapshotTaken_store {i : Nat} (h : StoreInv blank log s) (hs : s.snapshotTaken i = some s') :
    StoreInv blank log s' := by
  obtain ⟨c, -, hs⟩ := Option.bind_eq_some_iff.mp hs
  obtain ⟨o, -, hs⟩ := Option.bind_eq_some_iff.mp hs
  obtain ⟨content, -, hs⟩ := Option.bind_eq_some_iff.mp hs
  split at hs
  · cases hs
    exact h.congr rfl rfl rfl
  · cases hs

theorem recover_store {names : List Name} (h : StoreInv blank log s) (hs : s.recover names = some s') :
    StoreInv blank log s' := by
  unfold State.recover at hs
  split at hs
  · cases hs
  · split at hs
    · cases hs
      exact h.congr rfl rfl rfl
    · cases hs

theorem step_inv {l : Label} {out : Option (List Name)} (hstore : StoreInv blank log s) (hrec : RecoveryInv s)
    (hsafe : SnapshotSafe s l) (hs : s.step blank log l = some (s', out)) :
    StoreInv blank log s' ∧ RecoveryInv s' ∧ ∀ names ∈ out, Exact blank log s' names := by
  cases l with
  | commit idx =>
    simp only [State.step] at hs
    split at hs
    · cases hs
      exact ⟨hstore.congr rfl rfl rfl, hrec.frame rfl rfl rfl (.inr ⟨rfl, rfl, rfl, rfl⟩), by simp⟩
    · cases hs
  | poll =>
    cases hs
    exact ⟨hstore.poll, hrec.poll, by simp⟩
  | fetched found =>
    simp only [State.step] at hs
    split at hs
    · next idx ha =>
      cases hs
      have hbusy : s.apply ≠ none := by simp [ha]
      split
      · exact ⟨hstore.applyEntry ha, hrec.of_apply hbusy (applyEntry_same ..), by simp⟩
      · refine ⟨?_, hrec.of_apply hbusy ⟨rfl, rfl, rfl⟩, by simp⟩
        rw [StoreInv, ha] at hstore
        exact hstore.2
    · cases hs
  | applyDone ok =>
    simp only [State.step] at hs
    split at hs
    · next idx a ha =>
      obtain ⟨s₁, hs₁, heq⟩ := Option.map_eq_some_iff.mp hs
      cases heq
      refine ⟨hstore.applyDone ha ?_ hs₁, hrec.of_apply (by simp [ha]) (applyDone_same hs₁), by simp⟩
      rintro rfl
      simpa [SnapshotSafe, ha] using hsafe
    · cases hs
  | writeLands =>
    obtain ⟨s₁, hs₁, heq⟩ := Option.map_eq_some_iff.mp hs
    cases heq
    refine ⟨hstore.writeLands hs₁, ?_, by simp⟩
    unfold State.writeLands at hs₁
    split at hs₁
    · next ha =>
      cases hs₁
      exact hrec.of_apply (by simp [ha]) ⟨rfl, rfl, rfl⟩
    · cases hs₁
  | recover names =>
    obtain ⟨s₁, hs₁, heq⟩ := Option.map_eq_some_iff.mp hs
    cases heq
    obtain ⟨ha, hobr⟩ := hsafe
    exact ⟨recover_store hstore hs₁, hrec.recover (Option.isNone_iff_eq_none.mp ha)
      (Option.isNone_iff_eq_none.mp hobr) hs₁, by simp⟩
  | snapshotTaken i =>
    obtain ⟨s₁, hs₁, heq⟩ := Option.map_eq_some_iff.mp hs
    cases heq
    exact ⟨snapshotTaken_store hstore hs₁, hrec.snapshotTaken hstore hs₁, by simp⟩
  | copyDone i ok =>
    obtain ⟨c, hc, hs⟩ := Option.bind_eq_some_iff.mp hs
    obtain ⟨hrec', hexact⟩ := hrec.copyDone hstore hc hs
    exact ⟨hstore.copyDone hs, hrec', hexact⟩
  | iterMoved idx =>
    simp only [State.step] at hs
    split at hs
    · cases hs
    · next hsend =>
      cases hs
      exact ⟨hstore.congr rfl rfl rfl, hrec.frame rfl rfl rfl (.inl (hrec.creations_of_sending hsend).1), by simp⟩
  | copyDeleted name =>
    simp only [State.step] at hs
    split at hs
    · cases hs
    · next hsend =>
      cases hs
      exact ⟨hstore.congr rfl rfl (origins_update _ _ fun _ => rfl),
        hrec.frame rfl rfl rfl (.inl (hrec.creations_of_sending hsend).1), by simp⟩
  | recoveryEnd =>
    simp only [State.step] at hs
    split at hs
    · cases hs
    · next hsend =>
      cases hs
      obtain ⟨hnil, hone⟩ := hrec.creations_of_sending hsend
      exact ⟨hstore.congr rfl rfl rfl, ⟨hnil, by simp [hone]⟩, by simp⟩

theorem leader_inv : ((leader blank log).restrict SnapshotSafe).Inductive fun s => StoreInv blank log s ∧
    RecoveryInv s where
  init s h := by
    obtain ⟨ha, hobr, hnil, hsend, hholds⟩ := h
    refine ⟨?_, ?_⟩
    · rw [StoreInv, ha]
      exact hholds
    · rw [RecoveryInv, hobr]
      exact ⟨hnil, hsend⟩
  step s l s' h hs := by
    obtain ⟨hsafe, out, hs⟩ := hs
    obtain ⟨hstore, hrec, -⟩ := step_inv h.1 h.2 hsafe hs
    exact ⟨hstore, hrec⟩

/-- In every run whose events are safe, the copies are what the log asks for
up to the index, whenever one is recorded. -/
theorem snapshot_point_exact (h : ((leader blank log).restrict SnapshotSafe).Reachable s) {l : Label}
    (hsafe : SnapshotSafe s l) {names : List Name} (hs : s.step blank log l = some (s', some names)) (name : Name) :
    s'.copy names name = effect blank log s'.snapshotIndex name := by
  obtain ⟨hstore, hrec⟩ := leader_inv.reachable h
  exact (step_inv hstore hrec hsafe hs).2.2 names rfl name

end Run

instance (s : State) : (l : Label) → Decidable (SnapshotSafe s l)
  | .recover _ => inferInstanceAs (Decidable (_ ∧ _))
  | .applyDone false => inferInstanceAs (Decidable (_ = _))
  | .applyDone true | .commit _ | .poll | .fetched _ | .writeLands | .snapshotTaken _ | .copyDone _ _ | .iterMoved _
  | .copyDeleted _ | .recoveryEnd => .isTrue trivial

/-- Two objects get a byte each, and the second one another. -/
def threeWrites : Nat → Command
  | 1 => .write [1] 0 [1]
  | 2 => .write [2] 0 [1]
  | _ => .write [2] 0 [2]

/-- A leader without objects. -/
def emptyLeader : State := { table := ∅, lastAppliedIdx := 0, commitIdx := 0 }

/-- A recovery with copies of `names` is recorded where the copy of the
second object starts with one byte and the log asks for another. -/
def recordsByte (copied asked : UInt8) (s : State) (names : List Name) : Bool :=
  (s.copy names [2]).map (· 0) = some copied &&
    (effect (fun _ => 0) threeWrites s.snapshotIndex [2]).map (· 0) = some asked

/-- The state after labels that meet `G`, and the last one of them that
records an index as above. -/
def endsRecording (G : State → Label → Prop) [∀ s l, Decidable (G s l)] (copied asked : UInt8) (labels : List Label)
    (last : Label) : Bool :=
  (Lts.follow (fun s l => (s.step (fun _ => 0) threeWrites l).map (·.1)) G emptyLeader labels).any fun s =>
    decide (G s last) && (s.step (fun _ => 0) threeWrites last).any fun r => r.2.any (recordsByte copied asked r.1)

theorem endsRecording_spec {G : State → Label → Prop} [∀ s l, Decidable (G s l)] {copied asked : UInt8}
    {labels : List Label} {last : Label} (h : endsRecording G copied asked labels last = true) :
    ∃ s s' names, ((leader (fun _ => 0) threeWrites).restrict G).Reachable s ∧ G s last ∧
      s.step (fun _ => 0) threeWrites last = some (s', some names) ∧ recordsByte copied asked s' names = true := by
  obtain ⟨s, hs, h⟩ := (Option.any_eq_true _ _).mp h
  obtain ⟨hG, h⟩ := Bool.and_eq_true_iff.mp h
  obtain ⟨⟨s', out⟩, hlast, h⟩ := (Option.any_eq_true _ _).mp h
  obtain ⟨names, rfl, h⟩ := (Option.any_eq_true _ _).mp h
  have hinit : (leader (fun _ => 0) threeWrites).init emptyLeader := ⟨rfl, rfl, rfl, rfl, fun _ => rfl⟩
  refine ⟨s, s', names, Lts.Reachable.follow ?_ (.of_init hinit) hs, of_decide_eq_true hG, hlast, h⟩
  intro s l s' hl
  obtain ⟨⟨s₁, out⟩, hstep, rfl⟩ := Option.map_eq_some_iff.mp hl
  exact ⟨out, hstep⟩

/-- A write to a new object, and to one that is there. -/
def applyNew : List Label :=
  [.poll, .fetched true, .applyDone true, .applyDone true, .applyDone true, .writeLands, .applyDone true]

@[inherit_doc applyNew]
def applyExisting : List Label := [.poll, .fetched true, .applyDone true, .writeLands, .applyDone true]

/-- The first recovery copies an object. -/
def copyOne : List Label := [.snapshotTaken 0, .copyDone 0 true, .copyDone 0 true]

/-- Both objects are there, and the third entry is committed. -/
def twoObjects : List Label := .commit 3 :: applyNew ++ applyNew

theorem snapshot_point_exact_two_objects :
    ∃ s s' names, ((leader (fun _ => 0) threeWrites).restrict SnapshotSafe).Reachable s ∧
      recordsByte 2 2 s' names = true ∧
      ∀ name, s'.copy names name = effect (fun _ => 0) threeWrites s'.snapshotIndex name := by
  have hends : endsRecording SnapshotSafe 2 2 (twoObjects ++ applyExisting ++ .recover [[1], [2]] :: copyOne ++
      [.snapshotTaken 0, .copyDone 0 true]) (.copyDone 0 true) = true := by decide +kernel
  obtain ⟨s, s', names, hs, hsafe, hlast, hbyte⟩ := endsRecording_spec hends
  exact ⟨s, s', names, hs, hbyte, snapshot_point_exact hs hsafe hlast⟩

/-- With an apply in progress at the start, its write is in a copy although
its entry is above the index, or is missing although it is not. With two
recoveries the end of the first lets applies run during the second. A write
that fails after the device has done it is in the copy. -/
theorem copies_off_index :
    endsRecording (fun _ _ => True) 2 1
        (twoObjects ++ ([.poll, .fetched true, .applyDone true, .recover [[1], [2]]] : List Label) ++ copyOne ++
          ([.writeLands, .snapshotTaken 0, .copyDone 0 true] : List Label)) (.copyDone 0 true) = true ∧
      endsRecording (fun _ _ => True) 1 2
        (twoObjects ++ ([.poll, .fetched true, .applyDone true, .recover [[1], [2]]] : List Label) ++ copyOne ++
          ([.snapshotTaken 0, .writeLands, .applyDone true, .copyDone 0 true] : List Label))
          (.copyDone 0 true) = true ∧
      endsRecording (fun _ _ => True) 1 2
        (twoObjects ++ ([.recover [[1], [2]], .recover [[1], [2]]] : List Label) ++ copyOne ++ copyOne ++ copyOne ++
          copyOne ++ Label.snapshotTaken 0 :: applyExisting ++ ([.copyDone 0 true] : List Label)) (.copyDone 0 true) =
        true ∧
      endsRecording (fun _ _ => True) 2 1
        (twoObjects ++ ([.poll, .fetched true, .applyDone true, .writeLands, .applyDone false,
          .recover [[1], [2]]] : List Label) ++ copyOne ++ ([.snapshotTaken 0, .copyDone 0 true] : List Label))
        (.copyDone 0 true) = true := by
  decide +kernel

end Fastblock.L2
