import Fastblock.Core.Lts
import Fastblock.L5Monitor.Monitor

/-!
# Tasks of busy PGs

If an OSD goes out while a PG of it is created or remapped, `CheckPgs`
(monitor/osd/calculator.go:752-885) puts a task into a queue of the PG
(`PushPgTask`), and the report that ends what the PG is busy with runs the
tasks of its queue (`ProcessPgTask`, monitor/osd/pool.go:847-863, called
at 518 and 619). The queues, `pgsTaskQueue`, have the number of the PG as
key and not its pool, and `ProcessCreatePoolMessage` (pool.go:366-430)
makes the queues of all PGs of the new pool anew.

Every pool has the PGs from 0 on, so the queues are a list. One event is
handled at a time; pools are in the order of their creation. A panic ends
the monitor: there is no step. Ghost fields: each task has a number and
the pool of the busy PG, `issued` has the PG of each task, and `executed`
the report that ran it.

`task_stays`: as long as no pool is created over waiting tasks, and no
report finds tasks of another pool in its queue, each task either waits,
once, or was run, once, by a report of its PG, and a report runs all tasks
of its PG. `task_strays` has a run for each of the two.
-/
namespace Fastblock.L5.PgTasks

open Fastblock.Core

/-- `pgTask` -/
structure Task where
  osdid : Nat
  stateSwitch : StateSwitch
  /-- ghost: its number -/
  id : Nat
  /-- ghost: the pool of the PG that was busy -/
  pool : Nat
  deriving DecidableEq, Repr

/-- Ghost: a task that was run, and the PG whose report ran it. -/
structure Executed where
  task : Task
  pool : Nat
  pg : Nat
  deriving DecidableEq, Repr

structure St where
  topology : Topology
  pools : List PoolConfig
  /-- the OSDs of the `InToOut` tasks of `osdTaskQueue` -/
  osdTasks : List Nat
  /-- `pgsTaskQueue` -/
  queues : List (List Task)
  /-- ghost: the pool and the PG of each task -/
  issued : List (Nat × Nat)
  /-- ghost -/
  executed : List Executed

/-- What a call of `CheckPgs` does not decide: the orders of its iterations
and the results of its `Put`s. -/
structure Env where
  pools : MapOrder Nat
  domains : Nat → Nat → MapOrder (Bytes × Int)
  put : Nat → Bool

/-- A message of the leader of a PG. -/
inductive Report
  /-- `ProcessLeaderBeElected` -/
  | elected (osdList : List Nat)
  /-- `ProcessPgMemberChangeFinish` -/
  | changed (result : Int) (osdList : List Nat)

/-- The PG after the report; `none` if it does not change. -/
def Report.apply (osds : OsdInfos) (pgSize : Nat) : Report → PGConfig → Option PGConfig
  | .elected osdList => electedPg osds pgSize osdList
  | .changed result osdList => changedPg osds pgSize result osdList

namespace St

variable (s : St)

/-- The tasks in the queue of a PG number. -/
def waiting (g : Nat) : List Task := (s.queues[g]?).getD []

/-- `PushPgTask` for PG `g` of pool `p` -/
def push (p g osdid : Nat) (stateSwitch : StateSwitch) : Except Fault St :=
  match s.queues[g]? with
  | none => .error .panic
  | some q => .ok { s with
      queues := s.queues.set g (q ++ [⟨osdid, stateSwitch, s.issued.length, p⟩]), issued := s.issued ++ [(p, g)] }

/-- The tasks for the busy PGs of a pool, from PG `g` on. -/
def pushAll (p osdid : Nat) (stateSwitch : StateSwitch) : List (PGConfig × Bool) → Nat → St → Except Fault St
  | [], _, s => .ok s
  | checked :: rest, g, s => do
    let s ← if checked.2 then s.push p g osdid stateSwitch else .ok s
    pushAll p osdid stateSwitch rest (g + 1) s

/-- `CheckPgs` for one pool, and whether it goes on with the next one. -/
def checkOne (env : Env) (osdid : Nat) (stateSwitch : StateSwitch) (p : Nat) : Except Fault (St × Bool) :=
  match s.pools[p]? with
  | none => .ok (s, true)
  | some pool => do
    let checked ← checkPool s.topology s.pools pool osdid stateSwitch (env.domains p) pool.pgs 0
    let pgs := checked.map (·.1)
    let s ← pushAll p osdid stateSwitch checked 0 { s with pools := s.pools.set p { pool with pgs } }
    return (s, pgs = pool.pgs || env.put p)

def checkPools (env : Env) (osdid : Nat) (stateSwitch : StateSwitch) : List Nat → St → Except Fault St
  | [], s => .ok s
  | p :: ps, s => do
    let (s, next) ← s.checkOne env osdid stateSwitch p
    if next then checkPools env osdid stateSwitch ps s else return s

/-- `CheckPgs` -/
def checkPgs (env : Env) (osdid : Nat) (stateSwitch : StateSwitch) : Except Fault St :=
  checkPools env osdid stateSwitch (env.pools.order 0 (List.range s.pools.length)) s

/-- `Dequeue` of a task that is run then. -/
def take (p g : Nat) (t : Task) (rest : List Task) : St :=
  { s with queues := s.queues.set g rest, executed := s.executed ++ [{ task := t, pool := p, pg := g }] }

/-- The loop of `ProcessPgTask`, in a report of PG `g` of pool `p`;
`Dequeue` of an empty queue gives no task. -/
def runTasks (envs : Nat → Env) (p g : Nat) : Nat → St → Except Fault St
  | 0, s => .ok s
  | n + 1, s =>
    match s.waiting g with
    | [] => runTasks envs p g n s
    | t :: rest => do
      let s ← (s.take p g t rest).checkPgs (envs n) t.osdid t.stateSwitch
      runTasks envs p g n s

/-- `ProcessPgTask` -/
def processPgTask (envs : Nat → Env) (p g : Nat) : Except Fault St := runTasks envs p g (s.waiting g).length s

/-- The pool with the PG after a report, if the PG changes. -/
def reported (p g : Nat) (r : Report) : Option PoolConfig := do
  let pool ← s.pools[p]?
  let pg ← pool.pgs[g]?
  let pg ← r.apply s.topology.infos pool.pgSize pg
  return { pool with pgs := pool.pgs.set g pg }

end St

/-- The arguments of `ProcessCreatePoolMessage`. -/
structure NewPool where
  size : Nat
  pgCount : Nat
  failureDomain : Level
  root : Bytes
  coreNum : Nat

/-- `CreatePgs` for the new pool -/
def NewPool.pgs (c : NewPool) (t : Topology) (choices : Choices) : InitialResult :=
  createPgs t c.size c.pgCount c.failureDomain c.root c.coreNum choices

inductive Act
  /-- An OSD goes from in to out. -/
  | osdOut (osdid : Nat)
  /-- `OsdTaskrun` takes a task. -/
  | osdTask (env : Env)
  | createPool (c : NewPool) (choices : Choices) (put : Bool)
  | report (p g : Nat) (r : Report) (envs : Nat → Env)

def St.step? (s : St) : Act → Option St
  | .osdOut osdid => some { s with
      topology := s.topology.update osdid fun o => { o with isIn := false }, osdTasks := s.osdTasks ++ [osdid] }
  | .osdTask env =>
    match s.osdTasks with
    | [] => none
    | osdid :: rest => ({ s with osdTasks := rest }.checkPgs env osdid .inToOut).toOption
  | .createPool c choices put =>
    match c.pgs s.topology choices with
    | .done pgs => some { s with
        queues := List.replicate pgs.length [] ++ s.queues.drop pgs.length
        pools := if put then s.pools ++ [⟨c.size, c.failureDomain, c.root, pgs⟩] else s.pools }
    | .invalidCfg | .noEnoughHosts => some s
    | .unfinished | .panic => none
  | .report p g r envs =>
    match s.reported p g r with
    | none => some s
    | some pool => ({ s with pools := s.pools.set p pool }.processPgTask envs p g).toOption

/-- The monitor, from any OSDs and pools, with nothing deferred yet. -/
def monitor : Lts St Act where
  init s := (∀ q ∈ s.queues, q = []) ∧ s.issued = [] ∧ s.executed = []
  step s l s' := s.step? l = some s'

/-- No pool is created over waiting tasks, and a report that runs tasks
finds only tasks of its pool. -/
def Alone (s : St) : Act → Prop
  | .createPool c choices _ => ∀ pgs, c.pgs s.topology choices = .done pgs → ∀ g < pgs.length, s.waiting g = []
  | .report p g r _ => (s.reported p g r).isSome → ∀ t ∈ s.waiting g, t.pool = p
  | _ => True

/-! ## Where a task is -/

structure Inv (s : St) : Prop where
  waits : ∀ g, ∀ t ∈ s.waiting g, s.issued[t.id]? = some (t.pool, g)
  ran : ∀ e ∈ s.executed, s.issued[e.task.id]? = some (e.pool, e.pg)
  once : ∀ g, ((s.waiting g).map (·.id) ++ s.executed.map (·.task.id)).Nodup
  kept : ∀ (id : Nat) p g, s.issued[id]? = some (p, g) → (∃ t ∈ s.waiting g, t.id = id) ∨
    ∃ e ∈ s.executed, e.task.id = id

/-- Tasks were pushed, and nothing else happened to the queues. -/
structure Grows (s s' : St) : Prop where
  inv : Inv s → Inv s'
  executed : s'.executed = s.executed
  queue : ∀ g, s.waiting g <+: s'.waiting g

section Step

variable {s s' : St}

/-- The invariant reads the queues and the ghost fields only. -/
theorem Inv.congr (h : Inv s) (hq : ∀ g, s'.waiting g = s.waiting g) (hi : s'.issued = s.issued)
    (he : s'.executed = s.executed) : Inv s' := by
  refine ⟨fun g t ht => ?_, fun e hm => ?_, fun g => ?_, fun id p g hid => ?_⟩
  · rw [hi]
    exact h.waits g t (hq g ▸ ht)
  · rw [hi]
    exact h.ran e (he ▸ hm)
  · rw [hq, he]
    exact h.once g
  · rw [hq, he]
    exact h.kept id p g (hi ▸ hid)

theorem Grows.refl (s : St) : Grows s s := ⟨id, rfl, fun _ => List.prefix_refl _⟩

theorem Grows.trans {s'' : St} (h : Grows s s') (h' : Grows s' s'') : Grows s s'' :=
  ⟨h'.inv ∘ h.inv, h'.executed.trans h.executed, fun g => (h.queue g).trans (h'.queue g)⟩

theorem Grows.pools (s : St) (pools : List PoolConfig) : Grows s { s with pools } :=
  ⟨fun h => h.congr (fun _ => rfl) rfl rfl, rfl, fun _ => List.prefix_refl _⟩

theorem waiting_set {q : List Task} {g : Nat} (hq : s.queues[g]? = some q) (q' : List Task) (g' : Nat) :
    ((s.queues.set g q')[g']?).getD [] = if g = g' then q' else s.waiting g' := by
  rw [List.getElem?_set]
  split
  · next he =>
    subst he
    rw [if_pos (List.getElem?_eq_some_iff.mp hq).1]
    rfl
  · rfl

/-- The number of the next task is new. -/
theorem Inv.fresh (h : Inv s) (g : Nat) :
    s.issued.length ∉ (s.waiting g).map (·.id) ++ s.executed.map (·.task.id) := by
  intro hm
  have hnone : s.issued[s.issued.length]? = none := List.getElem?_eq_none (Nat.le_refl _)
  rcases List.mem_append.mp hm with hm | hm
  · obtain ⟨t, ht, he⟩ := List.mem_map.mp hm
    have := h.waits g t ht
    rw [he, hnone] at this
    cases this
  · obtain ⟨e, hm, he⟩ := List.mem_map.mp hm
    have := h.ran e hm
    rw [he, hnone] at this
    cases this

theorem issued_append {issued : List (Nat × Nat)} {id : Nat} {x y : Nat × Nat} (h : issued[id]? = some x) :
    (issued ++ [y])[id]? = some x := by
  rw [List.getElem?_append_left (List.getElem?_eq_some_iff.mp h).1, h]

theorem push_grows {p g osdid : Nat} {stateSwitch : StateSwitch} (h : s.push p g osdid stateSwitch = .ok s') :
    Grows s s' := by
  unfold St.push at h
  split at h
  · cases h
  · next q hq =>
    obtain rfl := Except.ok.inj h
    have hqw : s.waiting g = q := by rw [St.waiting, hq]; rfl
    have hw := waiting_set hq (q ++ [⟨osdid, stateSwitch, s.issued.length, p⟩])
    refine ⟨fun hi => ⟨fun g' t ht => ?_, fun e he => issued_append (hi.ran e he), fun g' => ?_,
        fun id p' g' hid => ?_⟩, rfl, fun g' => ?_⟩
    · rw [St.waiting, hw] at ht
      split at ht
      · next he =>
        subst he
        rcases List.mem_append.mp ht with ht | ht
        · exact issued_append (hi.waits g t (hqw ▸ ht))
        · rw [List.mem_singleton.mp ht]
          exact List.getElem?_concat_length
      · exact issued_append (hi.waits g' t ht)
    · rw [St.waiting, hw]
      split
      · next he =>
        subst he
        rw [← hqw, List.map_append, List.append_assoc]
        refine (List.perm_middle.nodup_iff).mpr (List.nodup_cons.mpr ⟨hi.fresh g, hi.once g⟩)
      · exact hi.once g'
    · by_cases hlt : id < s.issued.length
      · rw [List.getElem?_append_left hlt] at hid
        refine (hi.kept id p' g' hid).imp_left fun ⟨t, ht, he⟩ => ⟨t, ?_, he⟩
        rw [St.waiting, hw]
        split
        · next he =>
          subst he
          exact List.mem_append_left _ (hqw ▸ ht)
        · exact ht
      · have hid' : id = s.issued.length := by
          have := (List.getElem?_eq_some_iff.mp hid).1
          simp only [List.length_append, List.length_singleton] at this
          omega
        subst hid'
        rw [List.getElem?_concat_length] at hid
        obtain ⟨rfl, rfl⟩ := Prod.mk.inj (Option.some.inj hid)
        refine .inl ⟨⟨osdid, stateSwitch, s.issued.length, p⟩, ?_, rfl⟩
        rw [St.waiting, hw, if_pos rfl]
        exact List.mem_append_right _ (List.mem_singleton_self _)
    · rw [St.waiting, St.waiting, hw]
      split
      · next he =>
        subst he
        rw [hq]
        exact List.prefix_append _ _
      · exact List.prefix_refl _

theorem pushAll_grows {p osdid : Nat} {stateSwitch : StateSwitch} :
    ∀ {checked : List (PGConfig × Bool)} {g : Nat} {s : St},
    St.pushAll p osdid stateSwitch checked g s = .ok s' → Grows s s'
  | [], _, s, h => Except.ok.inj h ▸ Grows.refl s
  | c :: checked, g, s, h => by
    rw [St.pushAll] at h
    split at h
    · obtain ⟨s₁, hs₁, h⟩ := bind_ok h
      exact (push_grows hs₁).trans (pushAll_grows h)
    · exact pushAll_grows h

theorem checkOne_grows {env : Env} {osdid p : Nat} {stateSwitch : StateSwitch} {next : Bool}
    (h : s.checkOne env osdid stateSwitch p = .ok (s', next)) : Grows s s' := by
  unfold St.checkOne at h
  split at h
  · obtain ⟨rfl, -⟩ := Prod.mk.inj (Except.ok.inj h)
    exact .refl s
  · next pool _ =>
    obtain ⟨checked, -, h⟩ := bind_ok h
    obtain ⟨s₁, hs₁, h⟩ := bind_ok h
    obtain ⟨rfl, -⟩ := Prod.mk.inj (Except.ok.inj h)
    exact (Grows.pools s _).trans (pushAll_grows hs₁)

theorem checkPools_grows {env : Env} {osdid : Nat} {stateSwitch : StateSwitch} : ∀ {ps : List Nat} {s : St},
    St.checkPools env osdid stateSwitch ps s = .ok s' → Grows s s'
  | [], s, h => Except.ok.inj h ▸ Grows.refl s
  | p :: ps, s, h => by
    obtain ⟨⟨s₁, next⟩, hs₁, h⟩ := bind_ok h
    have hgrows := checkOne_grows hs₁
    dsimp only at h
    split at h
    · exact hgrows.trans (checkPools_grows h)
    · exact Except.ok.inj h ▸ hgrows

/-- `CheckPgs` only adds tasks. -/
theorem checkPgs_grows {env : Env} {osdid : Nat} {stateSwitch : StateSwitch}
    (h : s.checkPgs env osdid stateSwitch = .ok s') : Grows s s' := checkPools_grows h

/-! ## A report -/

theorem St.waiting_queue {g : Nat} {t : Task} {rest : List Task} (h : s.waiting g = t :: rest) :
    s.queues[g]? = some (t :: rest) := by
  unfold St.waiting at h
  cases hq : s.queues[g]? with
  | none => simp [hq] at h
  | some q => rw [← h, hq, Option.getD_some]

theorem take_waiting {p g : Nat} {t : Task} {rest : List Task} (h : s.waiting g = t :: rest) (g' : Nat) :
    (s.take p g t rest).waiting g' = if g = g' then rest else s.waiting g' :=
  waiting_set (St.waiting_queue h) rest g'

/-- The report of its own PG runs the first task. -/
theorem Inv.take (hi : Inv s) {p g : Nat} {t : Task} {rest : List Task} (h : s.waiting g = t :: rest)
    (hp : t.pool = p) :
    Inv (s.take p g t rest) := by
  have ht : t ∈ s.waiting g := h ▸ List.mem_cons_self ..
  have hown := hi.waits g t ht
  have hw := @take_waiting s p g t rest h
  have hsub : ∀ {g' t'}, t' ∈ (s.take p g t rest).waiting g' → t' ∈ s.waiting g' := fun {g' t'} hm => by
    rw [hw] at hm
    split at hm
    · next he => exact he ▸ h ▸ List.mem_cons_of_mem _ hm
    · exact hm
  refine ⟨fun g' t' ht' => hi.waits g' t' (hsub ht'), fun e he => ?_, fun g' => ?_, fun id p' g' hid => ?_⟩
  · rcases List.mem_append.mp he with he | he
    · exact hi.ran e he
    · rw [List.mem_singleton.mp he]
      exact hp ▸ hown
  · have hadd : ((s.take p g t rest).executed.map (·.task.id)) = s.executed.map (·.task.id) ++ [t.id] := by
      simp [St.take]
    rw [hadd, hw, ← List.append_assoc]
    split
    · next he =>
      subst he
      have := hi.once g
      rw [h] at this
      exact ((List.perm_append_singleton _ _).trans (.refl _)).nodup_iff.mpr this
    · next hne =>
      refine List.nodup_append.mpr ⟨hi.once g', List.nodup_singleton _, fun a ha b hb he => ?_⟩
      obtain rfl : b = t.id := List.mem_singleton.mp hb
      subst he
      rcases List.mem_append.mp ha with ha | ha
      · -- a task waits in the queue of its PG only
        obtain ⟨t', ht', he⟩ := List.mem_map.mp ha
        have := hi.waits g' t' ht'
        rw [he, hown] at this
        exact hne (Prod.mk.inj (Option.some.inj this)).2
      · have := hi.once g
        rw [h, List.map_cons, List.cons_append, List.nodup_cons] at this
        exact this.1 (List.mem_append_right _ ha)
  · rcases hi.kept id p' g' hid with ⟨t', ht', he⟩ | ⟨e, he, hid'⟩
    · by_cases hgg : g = g'
      · subst hgg
        rcases List.mem_cons.mp (h ▸ ht') with rfl | ht'
        · exact .inr ⟨⟨t', p, g⟩, List.mem_append_right _ (List.mem_singleton_self _), he⟩
        · exact .inl ⟨t', by rw [hw, if_pos rfl]; exact ht', he⟩
      · exact .inl ⟨t', by rw [hw, if_neg hgg]; exact ht', he⟩
    · exact .inr ⟨e, List.mem_append_left _ he, hid'⟩

/-- The tasks that are there when `ProcessPgTask` begins are run, and no
others. -/
theorem runTasks_spec {envs : Nat → Env} {p g : Nat} : ∀ {n : Nat} {s : St}, Inv s → n ≤ (s.waiting g).length →
    (∀ t ∈ (s.waiting g).take n, t.pool = p) → St.runTasks envs p g n s = .ok s' →
      Inv s' ∧ (∀ e ∈ s.executed, e ∈ s'.executed) ∧ ∀ t ∈ (s.waiting g).take n, ⟨t, p, g⟩ ∈ s'.executed
  | 0, s, hi, _, _, h => by
    obtain rfl := Except.ok.inj h
    exact ⟨hi, fun _ => id, by simp⟩
  | n + 1, s, hi, hle, hp, h => by
    cases hw : s.waiting g with
    | nil => simp [hw] at hle
    | cons t rest =>
      simp only [St.runTasks, hw] at h
      obtain ⟨s₁, hs₁, h⟩ := bind_ok h
      rw [hw] at hp hle
      rw [List.take_succ_cons] at hp ⊢
      obtain ⟨hpt, hp⟩ := List.forall_mem_cons.mp hp
      have hgrows := checkPgs_grows hs₁
      have hfront : (s₁.waiting g).take n = rest.take n := by
        obtain ⟨new, hnew⟩ := hgrows.queue g
        rw [take_waiting hw, if_pos rfl] at hnew
        rw [← hnew, List.take_append_of_le_length (by simpa using hle)]
      have hle' : n ≤ (s₁.waiting g).length := by
        have := (hgrows.queue g).length_le
        rw [take_waiting hw, if_pos rfl] at this
        simp only [List.length_cons] at hle
        omega
      obtain ⟨hi', hkept, hran⟩ := runTasks_spec (hgrows.inv (hi.take hw hpt)) hle' (by rw [hfront]; exact hp) h
      have hmem : ∀ e ∈ (s.take p g t rest).executed, e ∈ s'.executed := fun e he => hkept e (by rwa [hgrows.executed])
      refine ⟨hi', fun e he => hmem e (List.mem_append_left _ he), List.forall_mem_cons.mpr ⟨?_, ?_⟩⟩
      · exact hmem _ (List.mem_append_right _ (List.mem_singleton_self _))
      · rw [hfront] at hran
        exact hran

theorem ok_of_toOption {x : Except Fault St} (h : x.toOption = some s) : x = .ok s := by
  cases x with
  | error e => cases h
  | ok a => exact congrArg Except.ok (Option.some.inj h)

/-- A report with only tasks of its pool in the queue. -/
theorem report_spec (hi : Inv s) {p g : Nat} {r : Report} {envs : Nat → Env} {pool : PoolConfig}
    (hr : s.reported p g r = some pool) (hp : ∀ t ∈ s.waiting g, t.pool = p)
    (h : s.step? (.report p g r envs) = some s') : Inv s' ∧ ∀ t ∈ s.waiting g, ⟨t, p, g⟩ ∈ s'.executed := by
  simp only [St.step?, hr] at h
  have hrun : St.runTasks envs p g (s.waiting g).length { s with pools := s.pools.set p pool } = .ok s' :=
    ok_of_toOption h
  have hall : (s.waiting g).take (s.waiting g).length = s.waiting g := List.take_length
  obtain ⟨hi', -, hran⟩ := runTasks_spec ((Grows.pools s (s.pools.set p pool)).inv hi) (Nat.le_refl _)
    (fun t ht => hp t (List.mem_of_mem_take ht)) hrun
  exact ⟨hi', fun t ht => hran t (hall.symm ▸ ht)⟩

theorem Inv.step (hi : Inv s) {l : Act} (halone : Alone s l) (hs : s.step? l = some s') : Inv s' := by
  cases l with
  | osdOut osdid =>
    obtain rfl := Option.some.inj hs
    exact hi.congr (fun _ => rfl) rfl rfl
  | osdTask env =>
    rw [St.step?] at hs
    split at hs
    · cases hs
    · exact (checkPgs_grows (ok_of_toOption hs)).inv (hi.congr (fun _ => rfl) rfl rfl)
  | createPool c choices put =>
    rw [St.step?] at hs
    split at hs
    · next pgs hpgs =>
      obtain rfl := Option.some.inj hs
      refine hi.congr (fun g => ?_) rfl rfl
      -- the new queues were empty before
      by_cases hlt : g < pgs.length
      · rw [halone pgs hpgs g hlt, St.waiting, List.getElem?_append_left (by simpa using hlt),
          List.getElem?_replicate, if_pos hlt]
        rfl
      · rw [St.waiting, St.waiting, List.getElem?_append_right (by simpa using hlt), List.getElem?_drop,
          List.length_replicate, Nat.add_sub_cancel' (by omega)]
    · exact Option.some.inj hs ▸ hi
    · exact Option.some.inj hs ▸ hi
    · cases hs
    · cases hs
  | report p g r envs =>
    cases hr : s.reported p g r with
    | none =>
      simp only [St.step?, hr] at hs
      exact Option.some.inj hs ▸ hi
    | some pool => exact (report_spec hi hr (halone (by simp [hr])) hs).1

end Step

/-! ## The result -/

/-- Task `id` of PG `g` of pool `p` waits in the queue of the PG, once, or a
report of the PG ran it, once. -/
structure Stays (s : St) (id p g : Nat) : Prop where
  once : ((s.waiting g).map (·.id)).count id + (s.executed.map (·.task.id)).count id = 1
  own : ∀ e ∈ s.executed, e.task.id = id → e.pool = p ∧ e.pg = g

theorem Inv.stays {s : St} (h : Inv s) {id p g : Nat} (hid : s.issued[id]? = some (p, g)) : Stays s id p g := by
  refine ⟨?_, fun e he hid' => ?_⟩
  · have hcount : ((s.waiting g).map (·.id) ++ s.executed.map (·.task.id)).count id = 1 := by
      refine List.count_eq_one_of_mem (h.once g) (List.mem_append.mpr ?_)
      exact (h.kept id p g hid).imp (fun ⟨t, ht, he⟩ => List.mem_map.mpr ⟨t, ht, he⟩)
        fun ⟨e, hm, he⟩ => List.mem_map.mpr ⟨e, hm, he⟩
    rwa [List.count_append] at hcount
  · have := h.ran e he
    rw [hid', hid] at this
    obtain ⟨hp, hg⟩ := Prod.mk.inj (Option.some.inj this)
    exact ⟨hp.symm, hg.symm⟩

/-- A deferred task stays with its PG, and the next report of the PG that
changes it runs the task. -/
theorem task_stays {s : St} (hr : (monitor.restrict Alone).Reachable s) :
    (∀ id p g, s.issued[id]? = some (p, g) → Stays s id p g) ∧
      ∀ p g r envs s', Alone s (.report p g r envs) → s.step? (.report p g r envs) = some s' →
        (s.reported p g r).isSome → ∀ t ∈ s.waiting g, ⟨t, p, g⟩ ∈ s'.executed := by
  have hI : (monitor.restrict Alone).Inductive Inv := by
    refine ⟨fun s hs => ?_, fun s l s' h hs => h.step hs.1 hs.2⟩
    have hnone : ∀ g, s.waiting g = [] := fun g => by
      unfold St.waiting
      cases hq : s.queues[g]? with
      | none => rfl
      | some q => exact hs.1 q (List.mem_of_getElem? hq)
    exact ⟨by simp [hnone], by simp [hs.2.2], by simp [hnone, hs.2.2], by simp [hs.2.1]⟩
  have hinv := hI.reachable hr
  refine ⟨fun id p g => hinv.stays, fun p g r envs s' halone hs hsome => ?_⟩
  obtain ⟨pool, hpool⟩ := Option.isSome_iff_exists.mp hsome
  exact (report_spec hinv hpool (halone hsome) hs).2

/-! ## Runs -/

/-- Iterations in the order of the map's list. -/
def inOrder {α : Type} : MapOrder α := ⟨fun _ l => l, fun _ _ => .refl _⟩

def plainEnv : Env := ⟨inOrder, fun _ _ => inOrder, fun _ => true⟩

def upIn (osdid : Nat) : Osd := ⟨osdid, [], 0, 1, true, true⟩

theorem upIn_nodup : ([upIn 1, upIn 2].map (·.osdid)).Nodup := by decide

/-- Two OSDs. -/
def osds : Topology := ⟨[upIn 1, upIn 2], upIn_nodup, [], .nil, [], .nil⟩

/-- Two pools with one PG, that is being created: on OSD 2, and on OSD 1. -/
def twoPools : St where
  topology := osds
  pools := [⟨1, .osd, [], [{ osdList := [2], pgState := { creating := true } }]⟩,
    ⟨1, .osd, [], [{ osdList := [1], pgState := { creating := true } }]⟩]
  osdTasks := []
  queues := [[]]
  issued := []
  executed := []

theorem twoPools_init : monitor.init twoPools :=
  ⟨fun _ hq => List.mem_singleton.mp hq, rfl, rfl⟩

/-- OSD 1 goes out, and the PG of pool 1 gets a task. -/
def deferred : St where
  topology := osds.update 1 fun o => { o with isIn := false }
  pools := twoPools.pools
  osdTasks := []
  queues := [[⟨1, .inToOut, 0, 1⟩]]
  issued := [(1, 0)]
  executed := []

/-- The steps to `deferred` meet every guard that only speaks about pools
and reports. -/
theorem deferred_run {G : St → Act → Prop} (hG : ∀ s osdid, G s (.osdOut osdid)) (hG' : ∀ s env, G s (.osdTask env)) :
    (monitor.restrict G).Run twoPools [.osdOut 1, .osdTask plainEnv] deferred :=
  .cons ⟨hG _ _, rfl⟩ (.cons ⟨hG' _ _, rfl⟩ (.nil deferred))

theorem deferred_stays : (monitor.restrict Alone).Reachable deferred ∧ Stays deferred 0 1 0 := by
  have hr : (monitor.restrict Alone).Reachable deferred :=
    ⟨twoPools, _, twoPools_init, deferred_run (fun _ _ => trivial) fun _ _ => trivial⟩
  exact ⟨hr, (task_stays hr).1 0 1 0 rfl⟩

/-- A pool with one PG of one OSD. -/
def onePg : NewPool := ⟨1, 1, .osd, [], 1⟩

def noChoices : Choices := ⟨[0], fun _ _ => []⟩

/-- The task of pool 1 is run by the report of PG 0 of pool 0, or is lost
with the queue when a third pool is created. -/
theorem task_strays :
    (∃ s, monitor.Run twoPools [.osdOut 1, .osdTask plainEnv, .report 0 0 (.elected [2]) fun _ => plainEnv] s ∧
      s.issued[0]? = some (1, 0) ∧ s.executed = [⟨⟨1, .inToOut, 0, 1⟩, 0, 0⟩]) ∧
    ∃ s, monitor.Run twoPools [.osdOut 1, .osdTask plainEnv, .createPool onePg noChoices true] s ∧
      s.issued[0]? = some (1, 0) ∧ s.waiting 0 = [] ∧ s.executed = [] := by
  have hrun : monitor.Run twoPools [.osdOut 1, .osdTask plainEnv] deferred :=
    (deferred_run (G := fun _ _ => True) (fun _ _ => trivial) fun _ _ => trivial).of_restrict
  exact ⟨⟨_, hrun.snoc rfl, rfl, rfl⟩, _, hrun.snoc rfl, rfl, rfl, rfl⟩

end Fastblock.L5.PgTasks
