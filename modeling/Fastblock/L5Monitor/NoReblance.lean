import Fastblock.Core.Lts

/-!
# OSDs that come in while there is no rebalance

While `NoReblance` is set the monitor does not rebalance for an OSD that
goes from out to in; it keeps one bit, `OutToIn`, and enqueues the task
when `NoReblance` is cleared. Model of `outToInHandler`,
`LoadClusterUnprocessedEvent`, `ProcessNoReblanceMessage`,
`ProcessOsdInMessage` and the end of `ProcessBootMessage`
(monitor/osd/osd.go:230-306, 440-478, 640-711), and of the loaders at a
restart (monitor/cmd/fastblock-mon/main.go:879-887, where their errors are
not looked at).

Each message has a goroutine of its own and no lock covers the flags. A
step is one access to a flag: a test of it, a write to it or the
`json.Marshal` of what is saved. A `Put` lands in a step of its own,
before the call returns, and a call that fails may have landed or not. A
restart ends all handlers. Left out: which OSDs are in (any OSD may come
in at any time), `NoOut`, and what takes tasks from the queue.

`event_survives`: no event is lost as long as, while one is owed,
* a restart finds both bits in etcd;
* neither the save of a `NoReblance` that is being set nor the save of the
  OSD map at a boot fails;
* `NoReblance` is still set when `outToInHandler`, which found it set,
  looks at `OutToIn` and sets it.

`events_dropped` has a run for each of these, and two for the second.
-/
namespace Fastblock.L5.NoReblance

open Fastblock.Core

/-- `CState.NoReblance` and `CSUnprocessedEvent.OutToIn`. -/
structure Flags where
  noReblance : Bool := false
  outToIn : Bool := false
  deriving DecidableEq, Repr

/-- Where a handler is. Those that wait for a `Put` have the flag that it
saves. -/
inductive Handler
  /-- `ProcessBootMessage` waits for the `Put` of the OSD map. -/
  | boot (osd : Nat)
  /-- `outToInHandler`, before the test of `NoReblance` -/
  | test (osd : Nat)
  /-- `NoReblance` was set: before the test of `OutToIn` -/
  | found (osd : Nat)
  /-- `OutToIn` was not set: before it is -/
  | raise (osd : Nat)
  /-- before `OutToIn` is marshalled -/
  | save (osd : Nat)
  | mark (osd : Nat) (outToIn : Bool)
  /-- `ProcessNoReblanceMessage`, before it writes `NoReblance` -/
  | assign (set : Bool)
  | saveState (set : Bool)
  | switch (set noReblance : Bool)
  /-- `NoReblance` is cleared: before the test of `OutToIn` -/
  | look
  /-- `OutToIn` was set: before it is cleared -/
  | drain
  | saveEvent
  | clear (outToIn : Bool)
  deriving DecidableEq, Repr

structure Running where
  handler : Handler
  landed : Bool := false
  deriving DecidableEq, Repr

structure St where
  mem : Flags
  etcd : Flags
  running : List Running
  /-- the `OutToIn` tasks of `osdTaskQueue` -/
  queue : List Nat
  /-- ghost: an OSD came in while `NoReblance` was set, and no task has been
  enqueued since -/
  owed : Bool
  deriving DecidableEq, Repr

inductive Act
  /-- `ProcessOsdInMessage` of an OSD that is out and up -/
  | osdIn (osd : Nat)
  /-- `ProcessBootMessage` of an OSD that is out -/
  | osdBoot (osd : Nat)
  /-- `ProcessNoReblanceMessage` and its test of the flag -/
  | noReblance (set : Bool)
  /-- The next access of a handler. -/
  | go (i : Nat)
  /-- A `Put` takes effect. -/
  | land (i : Nat)
  /-- A `Put` returns. -/
  | ret (i : Nat) (ok : Bool)
  /-- The monitor starts again, with the results of two `Get`s and of the
  `Put` between them and the first handler. -/
  | restart (stateRead eventRead stored : Bool)
  deriving DecidableEq, Repr

namespace St

variable (s : St)

def enqueue (osd : Nat) : St := { s with queue := s.queue ++ [osd], owed := false }

def start (h : Handler) : St := { s with running := s.running ++ [{ handler := h }] }

/-- Without the `i`th handler. -/
def rest (i : Nat) : St := { s with running := s.running.eraseIdx i }

/-- An OSD goes from out to in. -/
def came : St := { s with owed := s.owed || s.mem.noReblance }

def setNoReblance (b : Bool) : St := { s with mem := { s.mem with noReblance := b } }

def setOutToIn (b : Bool) : St := { s with mem := { s.mem with outToIn := b } }

/-- One access of a handler; those that wait for a `Put` make none. -/
def go : Handler → Option St
  | .test osd => some (if s.mem.noReblance then s.start (.found osd) else s.enqueue osd)
  | .found osd => some (if !s.mem.outToIn then s.start (.raise osd) else s)
  | .raise osd => some ((s.setOutToIn true).start (.save osd))
  | .save osd => some (s.start (.mark osd s.mem.outToIn))
  | .assign set => some ((s.setNoReblance set).start (.saveState set))
  | .saveState set => some (s.start (.switch set s.mem.noReblance))
  | .look => some (if s.mem.outToIn then s.start .drain else s)
  | .drain => some ((s.setOutToIn false).start .saveEvent)
  | .saveEvent => some (s.start (.clear s.mem.outToIn))
  | _ => none

/-- What a handler does when its `Put` returns. -/
def resume : Handler → Bool → St
  | .boot osd, ok => if ok then s.start (.test osd) else s
  | .mark osd _, ok => if ok then s else (s.setOutToIn false).enqueue osd
  | .switch set _, ok => if ok then (if set then s else s.start .look) else s.setNoReblance !set
  | .clear _, _ => s.enqueue 0
  | _, _ => s

/-- `LoadClusterStates` and `LoadClusterUnprocessedEvent` -/
def load (stateRead eventRead stored : Bool) : St :=
  let noReblance := stateRead && s.etcd.noReblance
  let outToIn := eventRead && s.etcd.outToIn
  if !noReblance && outToIn then
    { s with mem := ⟨noReblance, false⟩, etcd := { s.etcd with outToIn := if stored then false else true } }
  else { s with mem := ⟨noReblance, outToIn⟩ }

end St

/-- What the `Put` that a handler waits for makes of the saved flags. -/
def Handler.put? (etcd : Flags) : Handler → Option Flags
  | .boot _ => some etcd
  | .mark _ outToIn => some { etcd with outToIn }
  | .switch _ noReblance => some { etcd with noReblance }
  | .clear outToIn => some { etcd with outToIn }
  | _ => none

def St.step? (s : St) : Act → Option St
  | .osdIn osd => some (s.came.start (.test osd))
  | .osdBoot osd => some (s.came.start (.boot osd))
  | .noReblance set => some (if s.mem.noReblance ≠ set then s.start (.assign set) else s)
  | .go i => s.running[i]?.bind fun r => (s.rest i).go r.handler
  | .land i => s.running[i]?.bind fun r =>
    if r.landed then none
    else (r.handler.put? s.etcd).map fun etcd => { s with etcd, running := s.running.set i { r with landed := true } }
  | .ret i ok => s.running[i]?.bind fun r =>
    if (ok && !r.landed) || (r.handler.put? s.etcd).isNone then none else some ((s.rest i).resume r.handler ok)
  | .restart stateRead eventRead stored =>
    some ({ s with running := [], queue := [] }.load stateRead eventRead stored)

/-- The monitor, from any saved flags. -/
def monitor : Lts St Act where
  init s := s.running = [] ∧ s.owed = false
  step s l s' := s.step? l = some s'

/-! ## Events that are owed -/

/-- The handler will enqueue the task or see to the bit. -/
def Handler.holds : Handler → Bool
  | .boot _ | .test _ | .found _ | .raise _ | .drain | .saveEvent | .clear _ => true
  | _ => false

/-- The handler will look at the bit, now that `NoReblance` is cleared. -/
def Handler.looks : Handler → Bool
  | .saveState set | .switch set _ => !set
  | .look => true
  | _ => false

def St.runs (s : St) (p : Handler → Bool) : Prop := ∃ r ∈ s.running, p r.handler = true

/-- Something will enqueue the task: a handler, or the bit with what looks
at it. -/
def St.Held (s : St) : Prop :=
  s.runs Handler.holds ∨ s.mem.outToIn = true ∧ (s.mem.noReblance = true ∨ s.runs Handler.looks)

/-- A failing save loses nothing: it is taken back, or the task is enqueued
instead. -/
def Handler.mayFail : Handler → Bool
  | .boot _ => false
  | .switch set _ => !set
  | _ => true

/-- The handler goes by a test of `NoReblance` that was true. -/
def Handler.relies : Handler → Bool
  | .found _ | .raise _ => true
  | _ => false

/-- The steps that do not lose what is owed. -/
def Kept (s : St) (l : Act) : Prop :=
  s.owed = true →
    match l with
    | .restart stateRead eventRead _ => s.etcd = ⟨true, true⟩ ∧ stateRead = true ∧ eventRead = true
    | .ret i ok => ok = true ∨ s.running[i]?.all (·.handler.mayFail) = true
    | .go i => s.mem.noReblance = true ∨ s.running[i]?.all (!·.handler.relies) = true
    | _ => True

instance (s : St) (l : Act) : Decidable (Kept s l) := by
  cases l <;> unfold Kept <;> infer_instance

/-- Every event that is owed is held. -/
def Inv (s : St) : Prop := s.owed = true → s.Held

namespace St

variable {s s' : St} {i : Nat} {r : Running}

/-- What is held stays so if the bit, the flag and the handlers stay. -/
theorem Held.mono (h : s.Held) (hbit : s.mem.outToIn = true → s'.mem.outToIn = true)
    (hno : s.mem.noReblance = true → s'.mem.noReblance = true) (hruns : s.running ⊆ s'.running) : s'.Held := by
  have hp : ∀ p, s.runs p → s'.runs p := fun p ⟨r, hr, hpr⟩ => ⟨r, hruns hr, hpr⟩
  rcases h with h | ⟨hb, h⟩
  · exact .inl (hp _ h)
  · exact .inr ⟨hbit hb, h.imp hno (hp _)⟩

theorem runs_start {h : Handler} {p : Handler → Bool} (hp : p h = true) : (s.start h).runs p :=
  ⟨⟨h, false⟩, List.mem_append_right _ (List.mem_singleton.mpr rfl), hp⟩

theorem Held.start (h : s.Held) (k : Handler) : (s.start k).Held := h.mono id id (List.subset_append_left _ _)

/-- Without one of the handlers it is held by the others, unless by that
one. -/
theorem Held.rest (h : s.Held) (hr : s.running[i]? = some r) : (s.rest i).Held ∨ r.handler.holds = true ∨
    s.mem.outToIn = true ∧ r.handler.looks = true := by
  have hother : ∀ p : Handler → Bool, s.runs p → (s.rest i).runs p ∨ p r.handler = true := by
    rintro p ⟨q, hq, hp⟩
    obtain ⟨j, hj⟩ := List.mem_iff_getElem?.mp hq
    by_cases hij : j = i
    · rw [hij, hr] at hj
      exact .inr (Option.some.inj hj ▸ hp)
    · exact .inl ⟨q, List.mem_eraseIdx_iff_getElem?.mpr ⟨j, hij, hj⟩, hp⟩
  rcases h with h | ⟨hbit, hno | h⟩
  · exact (hother _ h).imp .inl .inl
  · exact .inl (.inr ⟨hbit, .inl hno⟩)
  · exact (hother _ h).imp (fun h => .inr ⟨hbit, .inr h⟩) fun h => .inr ⟨hbit, h⟩

end St

namespace Inv

variable {s s' : St} {i : Nat} {r : Running}

theorem enqueue (s : St) (osd : Nat) : Inv (s.enqueue osd) := fun h => by cases h

theorem start_holds (s : St) {h : Handler} (hh : h.holds = true) : Inv (s.start h) :=
  fun _ => .inl (St.runs_start hh)

theorem land (h : Inv s) (hr : s.running[i]? = some r) (etcd : Flags) :
    Inv { s with etcd, running := s.running.set i { r with landed := true } } := fun ho => by
  have hp : ∀ p, s.runs p → St.runs { s with etcd, running := s.running.set i { r with landed := true } } p := by
    rintro p ⟨q, hq, hpq⟩
    obtain ⟨j, hj⟩ := List.mem_iff_getElem?.mp hq
    by_cases hij : i = j
    · rw [← hij, hr] at hj
      obtain rfl := Option.some.inj hj
      exact ⟨_, List.mem_set (List.getElem?_eq_some_iff.mp hr).1 _, hpq⟩
    · exact ⟨q, List.mem_iff_getElem?.mpr ⟨j, by rw [List.getElem?_set_ne hij, hj]⟩, hpq⟩
  exact (h ho).imp (hp _) fun h => ⟨h.1, h.2.imp_right (hp _)⟩

/-- A handler makes its next access. -/
theorem go (h : Inv s) (hr : s.running[i]? = some r)
    (hkept : s.owed = true → s.mem.noReblance = true ∨ r.handler.relies = false)
    (hs : (s.rest i).go r.handler = some s') : Inv s' := by
  have hrest := fun ho => (h ho).rest hr
  obtain ⟨handler, landed⟩ := r
  cases handler with
  | test osd =>
    obtain rfl := Option.some.inj hs
    split
    · exact start_holds _ rfl
    · exact enqueue _ osd
  | found osd =>
    obtain rfl := Option.some.inj hs
    split
    · exact start_holds _ rfl
    · next hbit => exact fun ho => .inr ⟨by simpa using hbit, (hkept ho).imp_right fun h => by cases h⟩
  | raise osd =>
    obtain rfl := Option.some.inj hs
    exact fun ho => .inr ⟨rfl, (hkept ho).imp_right fun h => by cases h⟩
  | save osd =>
    obtain rfl := Option.some.inj hs
    exact fun ho => ((hrest ho).resolve_right (by simp [Handler.holds, Handler.looks])).start _
  | assign set =>
    obtain rfl := Option.some.inj hs
    intro ho
    rcases (hrest ho).resolve_right (by simp [Handler.holds, Handler.looks]) with h | ⟨hbit, -⟩
    · exact St.Held.start (s := (s.rest i).setNoReblance set) (.inl h) _
    · refine .inr ⟨hbit, ?_⟩
      cases set with
      | true => exact .inl rfl
      | false => exact .inr (St.runs_start rfl)
  | saveState set =>
    obtain rfl := Option.some.inj hs
    intro ho
    rcases hrest ho with h | h | ⟨hbit, hlooks⟩
    · exact h.start _
    · cases h
    · exact .inr ⟨hbit, .inr (St.runs_start hlooks)⟩
  | look =>
    obtain rfl := Option.some.inj hs
    split
    · exact start_holds _ rfl
    · next hbit =>
      intro ho
      rcases hrest ho with h | h | ⟨hb, -⟩
      · exact h
      · cases h
      · exact absurd hb hbit
  | drain =>
    obtain rfl := Option.some.inj hs
    exact start_holds _ rfl
  | saveEvent =>
    obtain rfl := Option.some.inj hs
    exact start_holds _ rfl
  | boot osd => cases hs
  | mark osd outToIn => cases hs
  | switch set noReblance => cases hs
  | clear outToIn => cases hs

/-- A handler goes on after its `Put`. -/
theorem resume (h : Inv s) (hr : s.running[i]? = some r) {ok : Bool}
    (hput : (r.handler.put? s.etcd).isNone = false)
    (hsafe : s.owed = true → ok = true ∨ r.handler.mayFail = true) : Inv ((s.rest i).resume r.handler ok) := by
  have hrest := fun ho => (h ho).rest hr
  obtain ⟨handler, landed⟩ := r
  cases handler with
  | boot osd =>
    cases ok with
    | true => exact start_holds _ rfl
    | false => exact fun ho => by simpa [Handler.mayFail] using hsafe ho
  | mark osd outToIn =>
    cases ok with
    | true => exact fun ho => (hrest ho).resolve_right (by simp [Handler.holds, Handler.looks])
    | false => exact enqueue _ osd
  | clear outToIn => exact enqueue _ 0
  | switch set noReblance =>
    cases set with
    | true =>
      cases ok with
      | true => exact fun ho => (hrest ho).resolve_right (by simp [Handler.holds, Handler.looks])
      | false => exact fun ho => by simpa [Handler.mayFail] using hsafe ho
    | false =>
      intro ho
      cases ok with
      | true =>
        rcases hrest ho with h | h | ⟨hbit, -⟩
        · exact h.start .look
        · cases h
        · exact .inr ⟨hbit, .inr (St.runs_start rfl)⟩
      | false =>
        rcases hrest ho with h | h | ⟨hbit, -⟩
        · exact h.mono id (fun _ => rfl) (List.Subset.refl _)
        · cases h
        · exact .inr ⟨hbit, .inl rfl⟩
  | _ => cases hput

theorem step (h : Inv s) {l : Act} (hkept : Kept s l) (hs : s.step? l = some s') : Inv s' := by
  cases l with
  | osdIn osd =>
    obtain rfl := Option.some.inj hs
    exact start_holds _ rfl
  | osdBoot osd =>
    obtain rfl := Option.some.inj hs
    exact start_holds _ rfl
  | noReblance set =>
    obtain rfl := Option.some.inj hs
    split
    · exact fun ho => (h ho).start _
    · exact h
  | go i =>
    obtain ⟨r, hr, hs⟩ := Option.bind_eq_some_iff.mp hs
    refine h.go hr (fun ho => (hkept ho).imp_right fun hall => ?_) hs
    simpa [hr] using hall
  | land i =>
    obtain ⟨r, hr, hs⟩ := Option.bind_eq_some_iff.mp hs
    split at hs
    · cases hs
    · obtain ⟨etcd, -, rfl⟩ := Option.map_eq_some_iff.mp hs
      exact h.land hr etcd
  | ret i ok =>
    obtain ⟨r, hr, hs⟩ := Option.bind_eq_some_iff.mp hs
    split at hs
    · cases hs
    · next hput =>
      obtain rfl := Option.some.inj hs
      rw [Bool.or_eq_true, not_or, Bool.not_eq_true, Bool.not_eq_true] at hput
      refine h.resume hr hput.2 fun ho => (hkept ho).imp_right fun hall => ?_
      simpa [hr] using hall
  | restart stateRead eventRead stored =>
    obtain rfl := Option.some.inj hs
    intro ho
    have howed : s.owed = true := by
      unfold St.load at ho
      dsimp only at ho
      split at ho <;> exact ho
    obtain ⟨hetcd, rfl, rfl⟩ := hkept howed
    refine .inr ?_
    simp [St.load, hetcd]

end Inv

/-- An OSD that came in while `NoReblance` was set has had its task enqueued
once `NoReblance` is not set and all handlers are done. -/
theorem event_survives {s : St} (hr : (monitor.restrict Kept).Reachable s) (hdone : s.running = [])
    (hno : s.mem.noReblance = false) : s.owed = false := by
  have hI : (monitor.restrict Kept).Inductive Inv :=
    ⟨fun s hs ho => by simp [hs.2] at ho, fun s l s' h hs => h.step hs.1 hs.2⟩
  rw [← Bool.not_eq_true]
  intro ho
  have hruns : ∀ p, ¬ s.runs p := fun p ⟨r, hr, _⟩ => by simp [hdone] at hr
  rcases hI.reachable hr ho with h | ⟨-, h | h⟩
  · exact hruns _ h
  · simp [hno] at h
  · exact hruns _ h

/-! ## Runs -/

/-- A monitor without saved flags. -/
def fresh : St := ⟨{}, {}, [], [], false⟩

/-- The save of the only handler succeeds. -/
def saved : List Act := [.land 0, .ret 0 true]

/-- `NoReblance` is set or cleared, up to the end of the save. -/
def switched (set : Bool) : List Act := [.noReblance set, .go 0, .go 0] ++ saved

/-- OSD 1 comes in and finds `NoReblance` set and `OutToIn` not. -/
def marked : List Act := [.osdIn 1, .go 0, .go 0, .go 0, .go 0] ++ saved

/-- `NoReblance` is set, OSD 1 comes in and `NoReblance` is cleared, with a
restart before that. -/
def survives : List Act :=
  switched true ++ marked ++ [.restart true true true] ++ switched false ++ [.go 0, .go 0, .go 0] ++ saved

theorem fresh_survives : ∃ s, (monitor.restrict Kept).Reachable s ∧ s.running = [] ∧ s.mem.noReblance = false ∧
    s.queue = [0] ∧ s.owed = false := by
  have hend : Lts.follow St.step? Kept fresh survives = some ⟨{}, {}, [], [0], false⟩ := by decide
  have hrun := Lts.Reachable.follow (M := monitor) (fun _ _ _ h => h) (.of_init ⟨rfl, rfl⟩) hend
  exact ⟨_, hrun, rfl, rfl, rfl, event_survives hrun rfl rfl⟩

/-- A run ends without a handler and with an event that is owed though
`NoReblance` is not set. -/
def Drops (ls : List Act) : Prop :=
  ∃ s, monitor.Run fresh ls s ∧ s.running = [] ∧ s.mem.noReblance = false ∧ s.owed = true

/-- The crash between the two saves of `ProcessNoReblanceMessage`: the
loader takes the bit back and enqueues nothing. -/
def crashRun : List Act :=
  switched true ++ marked ++ [.noReblance false, .go 0, .go 0, .land 0, .restart true true true]

/-- The save that sets `NoReblance` fails after OSD 1 came in. -/
def failedSetRun : List Act :=
  [.noReblance true, .go 0, .go 0, .osdIn 1, .go 1, .go 1, .go 1, .go 1, .land 1, .ret 1 true, .ret 0 false]

/-- The save of the OSD map fails when OSD 1 boots. -/
def failedBootRun : List Act := switched true ++ [.osdBoot 1, .ret 0 false] ++ switched false ++ [.go 0]

/-- `NoReblance` is cleared, and `OutToIn` looked at, after the test of
`outToInHandler` and before it sets `OutToIn`. -/
def staleTestRun : List Act :=
  switched true ++ [.osdIn 1, .go 0, .noReblance false, .go 1, .go 1, .land 1, .ret 1 true, .go 1,
      .go 0, .go 0, .go 0] ++
    saved

theorem events_dropped : Drops crashRun ∧ Drops failedSetRun ∧ Drops failedBootRun ∧ Drops staleTestRun := by
  have hdrops : ∀ {ls : List Act} {s : St}, Lts.follow St.step? (fun _ _ => True) fresh ls = some s →
      s.running = [] → s.mem.noReblance = false → s.owed = true → Drops ls := fun hf hr hn ho =>
    ⟨_, (Lts.Run.follow (M := monitor) (fun _ _ _ h => h) hf).of_restrict, hr, hn, ho⟩
  exact ⟨hdrops (s := ⟨{}, {}, [], [], true⟩) (by decide) rfl rfl rfl,
    hdrops (s := ⟨⟨false, true⟩, ⟨false, true⟩, [], [], true⟩) (by decide) rfl rfl rfl,
    hdrops (s := ⟨{}, {}, [], [], true⟩) (by decide) rfl rfl rfl,
    hdrops (s := ⟨⟨false, true⟩, ⟨false, true⟩, [], [], true⟩) (by decide) rfl rfl rfl⟩

end Fastblock.L5.NoReblance
