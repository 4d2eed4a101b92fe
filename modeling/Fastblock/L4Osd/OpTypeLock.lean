import Fastblock.Core.Lts
import Mathlib.Data.List.Basic
import Mathlib.Data.List.Nodup

/-!
# The operation-type lock

`op_type_excl_lock` (src/osd/osd_stm.h:19-142): operations of one type run
together, operations of different types exclude each other, and who cannot
run waits in FIFO order. The template's `op_type` is `Option T`; `none` is
`op_type::NONE`.

A granted completion runs inside `lock` or inside the loop of `wake`, and
may lock and unlock in turn before it returns. So a state has the stack of
the calls in progress, and one step is a call of `lock` or `unlock` up to
the completion it runs, or the return of the innermost completion followed
by the rest of the call that ran it. `wake` takes the waiter off the list
only when its completion has returned.

`op_type_lock_sound`: in every run in which no unlock comes from inside a
completion that `wake` runs (and NONE is not mixed with the other types),
holders have one type, every completion is called once, waiters are served
in order, and nobody waits while nothing runs. Such an unlock breaks that
at once: the waiter is still at the front of the list and is completed a
second time.
-/
namespace Fastblock.L4.Osd

open Fastblock.Core

/-- A call of `lock`: the completion handed in and the type asked for. -/
structure Request (T : Type) where
  id : Nat
  type : Option T
  deriving DecidableEq, Repr

/-- `op_type_excl_lock`, osd_stm.h:72-87 -/
structure OpTypeLock (T : Type) where
  lockType : Option T := none
  runners : Nat := 0
  waiters : List (Request T) := []
  deriving DecidableEq, Repr

namespace OpTypeLock

variable {T : Type} [DecidableEq T]

/-- mirrors osd_stm.h:94-100 -/
def isCompatibleType (t₁ t₂ : Option T) : Bool := t₁.isNone || t₂.isNone || t₁ = t₂

/-- mirrors osd_stm.h:102-118 -/
def tryLock (l : OpTypeLock T) (t : Option T) : Option (OpTypeLock T) :=
  if l.lockType.isNone then some { l with lockType := t }
  else if isCompatibleType t l.lockType && l.waiters.isEmpty then some l
  else none

/-- mirrors osd_stm.h:41-56, up to the completion: `some` if it is called -/
def lock (l : OpTypeLock T) (r : Request T) : Option (OpTypeLock T) :=
  (l.tryLock r.type).map fun l => { l with runners := l.runners + 1 }

/-- mirrors osd_stm.h:55 -/
def wait (l : OpTypeLock T) (r : Request T) : OpTypeLock T := { l with waiters := l.waiters ++ [r] }

/-- mirrors osd_stm.h:58-65, up to `wake` -/
def release (l : OpTypeLock T) : OpTypeLock T :=
  { l with
    runners := l.runners - 1
    lockType := if l.runners - 1 = 0 then none else l.lockType }

/-- One turn of the loop of `wake` up to the completion,
osd_stm.h:124-130: the waiter at the front, if it gets the lock. It stays
on the list. -/
def wake (l : OpTypeLock T) : Option (Request T × OpTypeLock T) :=
  match l.waiters with
  | [] => none
  | w :: _ => (l.tryLock w.type).map fun l => (w, { l with runners := l.runners + 1 })

/-- mirrors osd_stm.h:131 -/
def popFront (l : OpTypeLock T) : OpTypeLock T := { l with waiters := l.waiters.tail }

theorem tryLock_free {l : OpTypeLock T} (h : l.lockType = none) (t : Option T) :
    l.tryLock t = some { l with lockType := t } := by
  simp [tryLock, h]

/-- A lock that is held is given to the same type, and only if nobody
waits. -/
theorem tryLock_held {l l' : OpTypeLock T} {t : Option T} (h : l.lockType ≠ none) (hl : l.tryLock t = some l') :
    l' = l ∧ l.waiters = [] ∧ (t = none ∨ t = l.lockType) := by
  cases ht : l.lockType with
  | none => exact absurd ht h
  | some a =>
    cases hw : l.waiters with
    | nil =>
      cases t with
      | none => simp_all [tryLock, isCompatibleType]
      | some b => simp_all [tryLock, isCompatibleType]
    | cons w ws => simp_all [tryLock]

theorem wake_nil {l : OpTypeLock T} (h : l.waiters = []) : l.wake = none := by
  simp [wake, h]

/-- Behind a holder `wake` grants nothing: the waiter it looks at is
itself on the list. -/
theorem wake_held {l : OpTypeLock T} (h : l.lockType ≠ none) : l.wake = none := by
  cases hw : l.waiters with
  | nil => exact wake_nil hw
  | cons w ws =>
    have hno : l.tryLock w.type = none := by
      cases hl : l.tryLock w.type with
      | none => rfl
      | some l' => simp [(tryLock_held h hl).2.1] at hw
    simp [wake, hw, hno]

theorem wake_free {l : OpTypeLock T} {w : Request T} {ws : List (Request T)} (h : l.lockType = none)
    (hw : l.waiters = w :: ws) :
    l.wake = some (w, { l with lockType := w.type, runners := l.runners + 1 }) := by
  simp [wake, hw, tryLock_free h]

end OpTypeLock

/-- `operation_type` without NONE, utils.h:182-187 -/
inductive OperationType where
  | read | write | delete
  deriving DecidableEq, Repr

/-! ## Calls and completions -/

/-- What is in progress below a completion: the `lock` call that granted it,
or the loop of `wake`. -/
inductive Frame where
  | lock | wake
  deriving DecidableEq, Repr

/-- The lock with the completions in progress, innermost first. `next`
numbers the requests. The rest is history: the requests that hold the lock
and the completions called. -/
structure Locking (T : Type) where
  lock : OpTypeLock T := {}
  stack : List Frame := []
  next : Nat := 0
  running : List (Request T) := []
  completed : List Nat := []
  deriving DecidableEq, Repr

inductive LockLabel (T : Type) where
  | lock (type : Option T)
  /-- the unlock of a request that holds the lock -/
  | unlock (r : Request T)
  /-- the innermost completion returns -/
  | ret
  deriving DecidableEq, Repr

namespace Locking

variable {T : Type} [DecidableEq T]

/-- The completion of `r` is called from `f`; the lock has counted it as
`l`. -/
def grant (s : Locking T) (f : Frame) (r : Request T) (l : OpTypeLock T) : Locking T :=
  { s with
    lock := l
    stack := f :: s.stack
    running := s.running ++ [r]
    completed := s.completed ++ [r.id] }

/-- The loop of `wake` up to the next completion, or to its end. -/
def wake (s : Locking T) : Locking T :=
  match s.lock.wake with
  | none => s
  | some (w, l) => s.grant .wake w l

def lockCall (s : Locking T) (t : Option T) : Locking T :=
  let r : Request T := ⟨s.next, t⟩
  let s := { s with next := s.next + 1 }
  match s.lock.lock r with
  | some l => s.grant .lock r l
  | none => { s with lock := s.lock.wait r }

def unlockCall (s : Locking T) (r : Request T) : Locking T :=
  { s with lock := s.lock.release, running := s.running.erase r }.wake

/-- What follows a completion in the call that ran it. -/
def resume (s : Locking T) (f : Frame) (k : List Frame) : Locking T :=
  match f with
  | .lock => { s with stack := k }
  | .wake => { s with stack := k, lock := s.lock.popFront }.wake

/-- An unlock matches a lock that is held. -/
def step? (s : Locking T) : LockLabel T → Option (Locking T)
  | .lock t => some (s.lockCall t)
  | .unlock r => if r ∈ s.running then some (s.unlockCall r) else none
  | .ret =>
    match s.stack with
    | [] => none
    | f :: k => some (s.resume f k)

def lts : Lts (Locking T) (LockLabel T) where
  init s := s = {}
  step s l s' := s.step? l = some s'

/-- The requests whose completion is still to be called. -/
def waiting (s : Locking T) : List (Request T) := s.lock.waiters.filter (·.id ∉ s.completed)

/-- What the lock promises in one state. The completions called and then
the requests that wait are all the requests in order of arrival: none is
completed twice, none is lost, and nobody overtakes. -/
structure Sound (s : Locking T) : Prop where
  sameType : ∀ r ∈ s.running, ∀ r' ∈ s.running, r.type = r'.type
  onceInOrder : s.completed ++ s.waiting.map (·.id) = List.range s.next
  noneIdle : s.waiting ≠ [] → s.running ≠ []

/-- The condition on a call: NONE is not locked beside another type, and no
completion that `wake` runs unlocks before it returns. -/
def Allowed (s : Locking T) : LockLabel T → Prop
  | .lock t => ∀ r ∈ s.running, r.type = none ↔ t = none
  | .unlock _ => Frame.wake ∉ s.stack
  | .ret => True

instance (s : Locking T) : ∀ l, Decidable (s.Allowed l)
  | .lock t => inferInstanceAs (Decidable (∀ r ∈ s.running, r.type = none ↔ t = none))
  | .unlock _ => inferInstanceAs (Decidable (Frame.wake ∉ s.stack))
  | .ret => inferInstanceAs (Decidable True)

/-! ## What every allowed call keeps -/

/-- `q` waits. While a completion runs inside `wake`, its request is the
only holder and still at the front of the list. -/
inductive Front (s : Locking T) (q : List (Request T)) : Prop where
  | outside (hstack : Frame.wake ∉ s.stack) (hlist : s.lock.waiters = q)
  | inside {w : Request T} {k : List Frame} (hstack : s.stack = .wake :: k) (hk : Frame.wake ∉ k)
      (hlist : s.lock.waiters = w :: q) (hrun : s.running = [w]) (htype : w.type ≠ none)
      (hdone : w.id ∈ s.completed)

structure Inv (s : Locking T) (q : List (Request T)) : Prop where
  count : s.lock.runners = s.running.length
  type : ∀ r ∈ s.running, r.type = s.lock.lockType
  free : s.running = [] → s.lock.lockType = none
  held : q ≠ [] → s.lock.lockType ≠ none
  typed : ∀ w ∈ q, w.type ≠ none
  order : s.completed ++ q.map (·.id) = List.range s.next
  front : s.Front q

section
omit [DecidableEq T]
variable {s : Locking T} {q : List (Request T)}

theorem Sound.completed_nodup (h : s.Sound) : s.completed.Nodup := by
  have hnodup : (s.completed ++ s.waiting.map (·.id)).Nodup := h.onceInOrder ▸ List.nodup_range
  exact (List.nodup_append.mp hnodup).1

theorem Inv.waiting_eq (h : s.Inv q) : s.waiting = q := by
  have hq : q.filter (·.id ∉ s.completed) = q := by
    refine List.filter_eq_self.mpr fun w hw => ?_
    have hnodup : (s.completed ++ q.map (·.id)).Nodup := h.order ▸ List.nodup_range
    have hdis := (List.nodup_append.mp hnodup).2.2
    simpa using fun hin => hdis _ hin _ (List.mem_map_of_mem hw) rfl
  unfold waiting
  cases h.front with
  | outside _ hlist => rw [hlist, hq]
  | inside _ _ hlist _ _ hdone => rw [hlist, List.filter_cons_of_neg (by simpa using hdone), hq]

theorem Inv.sound (h : s.Inv q) : s.Sound := by
  refine ⟨fun r hr r' hr' => (h.type r hr).trans (h.type r' hr').symm, ?_, ?_⟩
  · rw [h.waiting_eq]
    exact h.order
  · intro hw hr
    rw [h.waiting_eq] at hw
    exact h.held hw (h.free hr)

/-- Holders of a real type are there as long as the lock has a type. -/
theorem Inv.exists_running (h : s.Inv q) (ht : s.lock.lockType ≠ none) : ∃ r ∈ s.running, r.type ≠ none := by
  cases hr : s.running with
  | nil => exact absurd (h.free hr) ht
  | cons r rs =>
    refine ⟨r, List.mem_cons_self, ?_⟩
    rw [h.type r (by simp [hr])]
    exact ht

/-- A lock without a type is not inside `wake`, and nobody waits for it. -/
theorem Inv.of_free (h : s.Inv q) (ht : s.lock.lockType = none) :
    Frame.wake ∉ s.stack ∧ s.lock.waiters = [] ∧ q = [] := by
  have hq : q = [] := by
    by_contra hq
    exact h.held hq ht
  cases h.front with
  | outside hstack hlist => exact ⟨hstack, hlist.trans hq, hq⟩
  | @inside w _ _ _ _ hrun htype _ =>
    have hw : w.type = s.lock.lockType := h.type w (by simp [hrun])
    exact absurd (hw.trans ht) htype

/-- A lock on which nobody is listed as a waiter is not inside `wake`. -/
theorem Inv.of_waiters_nil (h : s.Inv q) (hw : s.lock.waiters = []) : Frame.wake ∉ s.stack ∧ q = [] := by
  cases h.front with
  | outside hstack hlist => exact ⟨hstack, hlist.symm.trans hw⟩
  | inside _ _ hlist _ _ _ => simp [hw] at hlist

end

variable {s s' : Locking T} {q : List (Request T)}

/-- The request that comes is granted at once: nobody waits, and the holders
have its type. -/
theorem Inv.lockNow (h : s.Inv q) {t : Option T} {l : OpTypeLock T} (hG : s.Allowed (.lock t))
    (hl : s.lock.tryLock t = some l) :
    Frame.wake ∉ s.stack ∧ q = [] ∧ l.waiters = [] ∧ l.runners = s.lock.runners ∧ l.lockType = t ∧
      ∀ r ∈ s.running, r.type = t := by
  by_cases ht : s.lock.lockType = none
  · obtain ⟨hstack, hw, hq⟩ := h.of_free ht
    rw [OpTypeLock.tryLock_free ht] at hl
    obtain rfl := Option.some.inj hl
    refine ⟨hstack, hq, hw, rfl, rfl, fun r hr => ?_⟩
    have hr0 : r.type = none := (h.type r hr).trans ht
    rw [hr0, (hG r hr).mp hr0]
  · obtain ⟨rfl, hw, htype⟩ := OpTypeLock.tryLock_held ht hl
    obtain ⟨hstack, hq⟩ := h.of_waiters_nil hw
    obtain ⟨r, hr, hr0⟩ := h.exists_running ht
    have ht0 : t ≠ none := fun h0 => hr0 ((hG r hr).mpr h0)
    obtain rfl := htype.resolve_left ht0
    exact ⟨hstack, hq, hw, rfl, rfl, h.type⟩

theorem lockCall_granted {t : Option T} {l : OpTypeLock T} (hl : s.lock.tryLock t = some l) :
    s.lockCall t =
      ({ s with next := s.next + 1 } : Locking T).grant .lock ⟨s.next, t⟩ { l with runners := l.runners + 1 } := by
  simp [Locking.lockCall, OpTypeLock.lock, hl]

theorem lockCall_waits {t : Option T} (hl : s.lock.tryLock t = none) :
    s.lockCall t =
      { s with next := s.next + 1, lock := s.lock.wait ⟨s.next, t⟩ } := by
  simp [Locking.lockCall, OpTypeLock.lock, hl]

theorem Inv.lockCall (h : s.Inv q) {t : Option T} (hG : s.Allowed (.lock t)) : ∃ q', (s.lockCall t).Inv q' := by
  cases hl : s.lock.tryLock t with
  | some l =>
    rw [lockCall_granted hl]
    obtain ⟨hstack, rfl, hw, hrun, ht, htypes⟩ := h.lockNow hG hl
    refine ⟨[], ⟨?_, ?_, ?_, by simp, by simp, ?_, .outside ?_ ?_⟩⟩
    · simp [grant, hrun, h.count]
    · intro r hr
      rcases List.mem_append.mp hr with hr | hr
      · exact (htypes r hr).trans ht.symm
      · obtain rfl := List.mem_singleton.mp hr
        exact ht.symm
    · simp [grant]
    · have horder := h.order
      simp_all [grant, List.range_succ]
    · simp [grant, hstack]
    · simp [grant, hw]
  | none =>
    rw [lockCall_waits hl]
    have ht : s.lock.lockType ≠ none := fun h0 => by simp [OpTypeLock.tryLock_free h0] at hl
    obtain ⟨r, hr, hr0⟩ := h.exists_running ht
    have ht0 : t ≠ none := fun h0 => hr0 ((hG r hr).mpr h0)
    refine ⟨q ++ [⟨s.next, t⟩], ⟨h.count, h.type, h.free, fun _ => ht, ?_, ?_, ?_⟩⟩
    · intro w hw
      rcases List.mem_append.mp hw with hw | hw
      · exact h.typed w hw
      · obtain rfl := List.mem_singleton.mp hw
        exact ht0
    · rw [List.range_succ, ← h.order]
      simp
    · cases h.front with
      | outside hstack hlist => exact .outside hstack (by simp [OpTypeLock.wait, hlist])
      | inside hstack hk hlist hrun htype hdone =>
        exact .inside hstack hk (by simp [OpTypeLock.wait, hlist]) hrun htype hdone

theorem wake_stays (hl : s.lock.wake = none) : s.wake = s := by
  simp [wake, hl]

theorem wake_grants {w : Request T} {ws : List (Request T)} (ht : s.lock.lockType = none)
    (hw : s.lock.waiters = w :: ws) :
    s.wake = s.grant .wake w { s.lock with lockType := w.type, runners := s.lock.runners + 1 } := by
  simp [wake, OpTypeLock.wake_free ht hw]

/-- The last holder goes: the lock is free, and the first waiter, if any,
gets it. -/
theorem Inv.wakeFirst (h : s.Inv q) (hstack : Frame.wake ∉ s.stack) (hw : s.lock.waiters = q) :
    ∃ q', ({ s with lock := { s.lock with runners := 0, lockType := none }, running := [] } :
      Locking T).wake.Inv q' := by
  cases q with
  | nil =>
    rw [wake_stays (OpTypeLock.wake_nil (by simpa using hw))]
    exact ⟨[], ⟨rfl, by simp, fun _ => rfl, by simp, by simp, h.order, .outside hstack hw⟩⟩
  | cons w q =>
    rw [wake_grants rfl (by simpa using hw)]
    have htype : w.type ≠ none := h.typed w List.mem_cons_self
    refine ⟨q, ⟨by simp [grant], ?_, ?_, fun _ => htype, fun x hx => h.typed x (List.mem_cons_of_mem _ hx), ?_,
      .inside rfl hstack hw rfl htype (by simp [grant])⟩⟩
    · intro r hr
      obtain rfl := List.mem_singleton.mp hr
      rfl
    · simp [grant]
    · simpa [grant] using h.order

theorem Inv.unlockCall (h : s.Inv q) {r : Request T} (hr : r ∈ s.running) (hstack : Frame.wake ∉ s.stack) :
    ∃ q', (s.unlockCall r).Inv q' := by
  have hw : s.lock.waiters = q := by
    cases h.front with
    | outside _ hlist => exact hlist
    | inside hin _ _ _ _ _ => simp [hin] at hstack
  have hlen : (s.running.erase r).length = s.lock.runners - 1 := by
    rw [List.length_erase_of_mem hr, h.count]
  unfold Locking.unlockCall OpTypeLock.release
  by_cases h0 : s.lock.runners - 1 = 0
  · have hnil : s.running.erase r = [] := List.eq_nil_of_length_eq_zero (hlen.trans h0)
    simp only [h0, hnil, if_true]
    exact h.wakeFirst hstack hw
  · -- somebody else holds the lock, with the same type
    obtain ⟨x, hx⟩ := List.exists_mem_of_length_pos (l := s.running.erase r) (by omega)
    have ht := h.type x (List.mem_of_mem_erase hx)
    simp only [h0, if_false]
    have hkeep : ({ s with
        lock := { s.lock with runners := s.lock.runners - 1 }, running := s.running.erase r } : Locking T).Inv q :=
      ⟨hlen.symm, fun y hy =>
        h.type y (List.mem_of_mem_erase hy), List.ne_nil_of_mem hx |>.elim, h.held, h.typed, h.order,
        .outside hstack hw⟩
    refine ⟨q, ?_⟩
    rwa [wake_stays]
    cases q with
    | nil => exact OpTypeLock.wake_nil hw
    | cons w q => exact OpTypeLock.wake_held (h.held (by simp))

theorem Inv.resume (h : s.Inv q) {f : Frame} {k : List Frame} (hs : s.stack = f :: k) :
    ∃ q', (s.resume f k).Inv q' := by
  refine ⟨q, ?_⟩
  cases h.front with
  | outside hstack hlist =>
    simp only [hs, List.mem_cons, not_or] at hstack
    cases f with
    | wake => exact absurd rfl hstack.1
    | lock => exact ⟨h.count, h.type, h.free, h.held, h.typed, h.order, .outside hstack.2 hlist⟩
  | @inside w k' hstack hk hlist hrun htype _ =>
    obtain ⟨rfl, rfl⟩ : f = .wake ∧ k = k' := by simpa [hs] using hstack
    have ht : w.type = s.lock.lockType := h.type w (by simp [hrun])
    unfold Locking.resume
    dsimp only
    rw [wake_stays (OpTypeLock.wake_held (by simpa [OpTypeLock.popFront, ← ht] using htype))]
    exact ⟨h.count, h.type, h.free, h.held, h.typed, h.order,
      .outside hk (by simp [OpTypeLock.popFront, hlist])⟩

theorem Inv.step {l : LockLabel T} (h : s.Inv q) (hG : s.Allowed l) (hs : s.step? l = some s') :
    ∃ q', s'.Inv q' := by
  cases l with
  | lock t =>
    obtain rfl := Option.some.inj hs
    exact h.lockCall hG
  | unlock r =>
    simp only [step?] at hs
    split at hs
    · next hr =>
      obtain rfl := Option.some.inj hs
      exact h.unlockCall hr hG
    · cases hs
  | ret =>
    simp only [step?] at hs
    split at hs
    · cases hs
    · next f k hstack =>
      obtain rfl := Option.some.inj hs
      exact h.resume hstack

theorem inv_reachable (hr : ((lts (T := T)).restrict Allowed).Reachable s) : ∃ q, s.Inv q := by
  have hI : ((lts (T := T)).restrict Allowed).Inductive fun s => ∃ q, s.Inv q := by
    refine ⟨?_, ?_⟩
    · intro s h0
      obtain rfl : s = {} := h0
      exact ⟨[], ⟨rfl, by simp, fun _ => rfl, by simp, by simp, rfl, .outside (by simp) rfl⟩⟩
    · intro s l s' h hs
      obtain ⟨q, h⟩ := h
      exact h.step hs.1 hs.2
  exact hI.reachable hr

/-- The waiter that `wake` completes is the only holder. Its unlock frees
the lock, and `wake` finds it at the front of the list once more. -/
theorem Inv.unlock_inside (h : s.Inv q) {r : Request T} (hr : r ∈ s.running) (hstack : Frame.wake ∈ s.stack) :
    ¬ (s.unlockCall r).Sound := by
  cases h.front with
  | outside hno _ => exact absurd hstack hno
  | @inside w k _ _ hlist hrun _ hdone =>
    obtain rfl : r = w := by simpa [hrun] using hr
    have hcount : s.lock.runners = 1 := by simp [h.count, hrun]
    intro hs
    have hn : (s.unlockCall r).completed.Nodup := hs.completed_nodup
    have hwake := wake_grants (s := { s with lock := s.lock.release, running := s.running.erase r })
      (by simp [OpTypeLock.release, hcount]) hlist
    rw [Locking.unlockCall, hwake] at hn
    simp only [grant, List.nodup_append] at hn
    exact hn.2.2 _ hdone _ (List.mem_singleton.mpr rfl) rfl

end Locking

/-- **Operation-type lock.** In every run whose calls are allowed the lock
keeps what it promises; and where such a run has come to, an unlock keeps it
exactly if no completion run by `wake` is in progress. -/
theorem op_type_lock_sound {T : Type} [DecidableEq T] (s : Locking T)
    (hr : (Locking.lts.restrict Locking.Allowed).Reachable s) :
    s.Sound ∧ ∀ r s', s.step? (.unlock r) = some s' → (s'.Sound ↔ Frame.wake ∉ s.stack) := by
  obtain ⟨q, h⟩ := Locking.inv_reachable hr
  refine ⟨h.sound, fun r s' hs => ?_⟩
  have hmem : r ∈ s.running := by
    by_contra hno
    simp [Locking.step?, hno] at hs
  obtain rfl : s.unlockCall r = s' := by simpa [Locking.step?, hmem] using hs
  constructor
  · intro hsound hstack
    exact h.unlock_inside hmem hstack hsound
  · intro hstack
    obtain ⟨q', h'⟩ := h.unlockCall hmem hstack
    exact h'.sound

/-- A reader, a writer that waits for it and is woken by its unlock. -/
theorem op_type_lock_sound_woken :
    let s : Locking OperationType :=
      ⟨⟨some .write, 1, []⟩, [], 2, [⟨1, some .write⟩], [0, 1]⟩
    s.Sound ∧ ∀ r s', s.step? (.unlock r) = some s' → (s'.Sound ↔ Frame.wake ∉ s.stack) :=
  op_type_lock_sound _ (Lts.Reachable.follow (fun _ _ _ h => h) (.of_init rfl)
    (show Lts.follow Locking.step? Locking.Allowed {}
      [.lock (some .read), .ret, .lock (some .write), .unlock ⟨0, some .read⟩, .ret] = _ by decide))

/-- The same writer unlocks before its completion returns, as
`osd_service_complete` does when `raft_write_entry` refuses the entry: it is
completed twice. -/
theorem waiter_completed_twice :
    ∃ s : Locking OperationType, Locking.lts.Reachable s ∧ s.completed = [0, 1, 1] ∧ ¬ s.Sound := by
  have hrun := Lts.Reachable.follow (G := fun _ _ => True) (M := Locking.lts (T := OperationType))
    (fun _ _ _ h => h) (.of_init rfl)
    (show Lts.follow Locking.step? _ {}
      [.lock (some .read), .ret, .lock (some .write), .unlock ⟨0, some .read⟩, .unlock ⟨1, some .write⟩] =
        some ⟨⟨some .write, 1, [⟨1, some .write⟩]⟩, [.wake, .wake], 2, [⟨1, some .write⟩], [0, 1, 1]⟩
      by decide)
  exact ⟨_, hrun.of_restrict, rfl, fun h => absurd h.completed_nodup (by decide)⟩

end Fastblock.L4.Osd
