import Fastblock.Core.Lts
import Fastblock.L5Client.Errno

/-!
# Flush as a barrier

A flush of the kernel client (kfastblock/src/volume.c:1796-1885) sets
`flush_in_progress`, waits until no I/O is in flight and clears it again;
`kfastblock_queue_rq` (4583-4591) accepts an I/O only if it is not set.
Test and update of the flag are under `inflight_lock`. A step here is one
such section, one access of the counter or the end of a request. Each I/O
ends its request and then calls `kfastblock_volume_put_io`, once.

`flush_is_barrier`: a flush that completes with `BLK_STS_OK` has all I/Os
behind it that were accepted before it began, and none is accepted before
it ends.
-/
namespace Fastblock.L5.FlushBarrier

open Fastblock.Core

/-- An I/O that was accepted. -/
inductive IoPhase
  | running
  /-- `blk_mq_end_request` was called -/
  | ended
  /-- and then `kfastblock_volume_put_io` -/
  | put
  deriving DecidableEq, Repr

/-- A call of `kfastblock_volume_handle_flush`. -/
inductive FlushPhase
  | draining
  /-- `kfastblock_volume_drain_io` returned 0, or `-ETIMEDOUT` -/
  | drained (ok : Bool)
  /-- `kfastblock_volume_end_flush` is done -/
  | cleared (ok : Bool)
  | completed (status : BlkStatus)
  deriving DecidableEq, Repr

structure Flush where
  /-- the number of I/Os accepted when it began -/
  before : Nat
  phase : FlushPhase
  deriving DecidableEq, Repr

structure St where
  /-- the I/Os, in the order in which they were accepted -/
  ios : List IoPhase
  inflightIos : Int
  flushInProgress : Bool
  flushes : List Flush
  deriving DecidableEq, Repr

inductive Act
  | queueRq
  | endRequest (io : Nat)
  | putIo (io : Nat)
  | beginFlush
  /-- A read of the counter in `kfastblock_volume_drain_io` finds 0. -/
  | drained (flush : Nat)
  /-- The wait is over and the counter is not 0. -/
  | timedOut (flush : Nat)
  | endFlush (flush : Nat)
  | complete (flush : Nat)
  deriving DecidableEq, Repr

def St.setPhase (s : St) (f : Nat) (x : Flush) (phase : FlushPhase) : St :=
  { s with flushes := s.flushes.set f { x with phase } }

def St.step? (s : St) : Act → Option St
  | .queueRq =>
    if s.flushInProgress then some s
    else some { s with ios := s.ios ++ [.running], inflightIos := s.inflightIos + 1 }
  | .endRequest io => if s.ios[io]? = some .running then some { s with ios := s.ios.set io .ended } else none
  | .putIo io =>
    if s.ios[io]? = some .ended then some { s with ios := s.ios.set io .put, inflightIos := s.inflightIos - 1 }
    else none
  | .beginFlush =>
    if s.flushInProgress then some { s with flushes := s.flushes ++ [⟨s.ios.length, .completed .resource⟩] }
    else some { s with flushInProgress := true, flushes := s.flushes ++ [⟨s.ios.length, .draining⟩] }
  | .drained f =>
    match s.flushes[f]? with
    | some x => if x.phase = .draining ∧ s.inflightIos = 0 then some (s.setPhase f x (.drained true)) else none
    | none => none
  | .timedOut f =>
    match s.flushes[f]? with
    | some x => if x.phase = .draining ∧ s.inflightIos ≠ 0 then some (s.setPhase f x (.drained false)) else none
    | none => none
  | .endFlush f =>
    match s.flushes[f]? with
    | some ⟨before, .drained ok⟩ =>
      some ({ s with flushInProgress := false }.setPhase f ⟨before, .drained ok⟩ (.cleared ok))
    | _ => none
  | .complete f =>
    match s.flushes[f]? with
    | some ⟨before, .cleared ok⟩ =>
      some (s.setPhase f ⟨before, .cleared ok⟩ (.completed (if ok then .ok else .resource)))
    | _ => none

/-- The volume, from before its first I/O. -/
def volume : Lts St Act where
  init s := s = ⟨[], 0, false, []⟩
  step s l s' := s.step? l = some s'

/-- Between `kfastblock_volume_begin_flush` and
`kfastblock_volume_end_flush`. -/
def Flush.between (x : Flush) : Bool :=
  match x.phase with
  | .draining => true
  | .drained _ => true
  | _ => false

/-- The counter was 0 since the flush began. -/
def Flush.clean (x : Flush) : Bool :=
  match x.phase with
  | .drained ok => ok
  | .cleared ok => ok
  | .completed status => status = .ok
  | .draining => false

structure Inv (s : St) : Prop where
  count : s.inflightIos = (s.ios.countP (· ≠ .put) : Nat)
  flag : s.flushes.countP Flush.between = if s.flushInProgress then 1 else 0
  held : ∀ x ∈ s.flushes, x.between = true → x.before = s.ios.length
  begun : ∀ x ∈ s.flushes, x.before ≤ s.ios.length
  clean : ∀ x ∈ s.flushes, x.clean = true → ∀ i < x.before, s.ios[i]? ≠ some .running

/-- The I/Os in flight after the phase of one of them moves on. -/
theorem inflight_set {ios : List IoPhase} {io : Nat} {old new : IoPhase} (hio : ios[io]? = some old)
    (hold : old ≠ .put) :
    ((ios.set io new).countP (· ≠ .put) : Int) = ios.countP (· ≠ .put) - 1 + if new = .put then 0 else 1 := by
  obtain ⟨hlt, rfl⟩ := List.getElem?_eq_some_iff.mp hio
  obtain ⟨n, hn⟩ : ∃ n, ios.countP (· ≠ .put) = n + 1 :=
    Nat.exists_eq_add_one.mpr (List.countP_pos_iff.mpr ⟨_, List.getElem_mem hlt, by simpa using hold⟩)
  rw [List.countP_set hlt, hn]
  by_cases hnew : new = .put
  · simp [hold, hnew]
  · simp [hold, hnew]

namespace Inv

variable {s : St}

/-- Without I/Os in flight none is running. -/
theorem not_running (h : Inv s) (h0 : s.inflightIos = 0) (i : Nat) : s.ios[i]? ≠ some .running := by
  intro hi
  have hzero : s.ios.countP (· ≠ .put) = 0 := by
    have := h.count
    omega
  have := List.countP_eq_zero.mp hzero .running (List.mem_of_getElem? hi)
  simp at this

/-- No flush is between its begin and its end while an I/O is accepted. -/
theorem not_between (h : Inv s) (hf : s.flushInProgress = false) {x : Flush} (hx : x ∈ s.flushes) :
    x.between = false := by
  have hzero := h.flag
  rw [hf, if_neg Bool.false_ne_true] at hzero
  simpa using List.countP_eq_zero.mp hzero x hx

theorem accept (h : Inv s) (hf : s.flushInProgress = false) :
    Inv { s with ios := s.ios ++ [.running], inflightIos := s.inflightIos + 1 } where
  count := by
    rw [List.countP_append, h.count]
    simp
  flag := h.flag
  held := fun x hx hb => by rw [h.not_between hf hx] at hb; cases hb
  begun := fun x hx => by
    have := h.begun x hx
    rw [List.length_append]
    exact Nat.le_add_right_of_le this
  clean := fun x hx hc i hi => by
    rw [List.getElem?_append_left (Nat.lt_of_lt_of_le hi (h.begun x hx))]
    exact h.clean x hx hc i hi

/-- The phase of an I/O moves on. -/
theorem setIo (h : Inv s) {io : Nat} {new : IoPhase} (hnew : new ≠ .running) (d : Int)
    (hd : d = (s.ios.set io new).countP (· ≠ .put)) : Inv { s with ios := s.ios.set io new, inflightIos := d } where
  count := hd
  flag := h.flag
  held := fun x hx hb => by rw [List.length_set]; exact h.held x hx hb
  begun := fun x hx => by rw [List.length_set]; exact h.begun x hx
  clean := fun x hx hc i hi => by
    rw [List.getElem?_set]
    split
    · split
      · exact fun he => hnew (Option.some.inj he)
      · exact nofun
    · exact h.clean x hx hc i hi

/-- A flush moves on; `b` is the flag afterwards. -/
theorem setPhase (h : Inv s) {f : Nat} {x : Flush} (hx : s.flushes[f]? = some x) (phase : FlushPhase) (b : Bool)
    (hflag : (if s.flushInProgress then 1 else 0) - (if x.between then 1 else 0) +
      (if Flush.between { x with phase } then 1 else 0) = if b then 1 else 0)
    (hheld : Flush.between { x with phase } = true → x.between = true)
    (hclean : Flush.clean { x with phase } = true → ∀ i < x.before, s.ios[i]? ≠ some .running) :
    Inv ({ s with flushInProgress := b }.setPhase f x phase) := by
  have hmem : x ∈ s.flushes := List.mem_of_getElem? hx
  obtain ⟨hf, rfl⟩ := List.getElem?_eq_some_iff.mp hx
  have hset : ∀ y ∈ s.flushes.set f { s.flushes[f] with phase }, y ∈ s.flushes ∨ y = { s.flushes[f] with phase } :=
    fun y hy => List.mem_or_eq_of_mem_set hy
  refine ⟨h.count, ?_, ?_, ?_, ?_⟩
  · show (s.flushes.set f _).countP _ = _
    rw [List.countP_set hf, h.flag]
    exact hflag
  · intro y hy hb
    rcases hset y hy with hy | rfl
    · exact h.held y hy hb
    · exact h.held s.flushes[f] hmem (hheld hb)
  · intro y hy
    rcases hset y hy with hy | rfl
    · exact h.begun y hy
    · exact h.begun s.flushes[f] hmem
  · intro y hy hc
    rcases hset y hy with hy | rfl
    · exact h.clean y hy hc
    · exact hclean hc

/-- A flush between begin and end holds the flag. -/
theorem flag_of_between (h : Inv s) {x : Flush} (hx : x ∈ s.flushes) (hb : x.between = true) :
    s.flushInProgress = true := by
  cases hf : s.flushInProgress with
  | true => rfl
  | false =>
    rw [h.not_between hf hx] at hb
    cases hb

theorem beginFlush (h : Inv s) (b : Bool) {phase : FlushPhase} (hclean : Flush.clean ⟨s.ios.length, phase⟩ = false)
    (hflag : (if s.flushInProgress then 1 else 0) + (if Flush.between ⟨s.ios.length, phase⟩ then 1 else 0) =
      if b then 1 else 0) :
    Inv { s with flushInProgress := b, flushes := s.flushes ++ [⟨s.ios.length, phase⟩] } := by
  refine ⟨h.count, ?_, ?_, ?_, ?_⟩
  · rw [List.countP_append, h.flag]
    simpa [List.countP_cons] using hflag
  · intro x hx hb
    rcases List.mem_append.mp hx with hx | hx
    · exact h.held x hx hb
    · rw [List.mem_singleton.mp hx]
  · intro x hx
    rcases List.mem_append.mp hx with hx | hx
    · exact h.begun x hx
    · exact Nat.le_of_eq (congrArg Flush.before (List.mem_singleton.mp hx))
  · intro x hx hc
    rcases List.mem_append.mp hx with hx | hx
    · exact h.clean x hx hc
    · rw [List.mem_singleton.mp hx, hclean] at hc
      cases hc

theorem step (h : Inv s) {l : Act} {s' : St} (hs : s.step? l = some s') : Inv s' := by
  cases l with
  | queueRq =>
    simp only [St.step?] at hs
    split at hs
    · exact Option.some.inj hs ▸ h
    · next hf => exact Option.some.inj hs ▸ h.accept (Bool.not_eq_true _ ▸ hf)
  | endRequest io =>
    obtain ⟨hio, hs⟩ := Option.ite_none_right_eq_some.mp hs
    refine Option.some.inj hs ▸ h.setIo (by decide) s.inflightIos ?_
    rw [inflight_set hio (by decide), h.count, if_neg (by decide)]
    omega
  | putIo io =>
    obtain ⟨hio, hs⟩ := Option.ite_none_right_eq_some.mp hs
    refine Option.some.inj hs ▸ h.setIo (by decide) (s.inflightIos - 1) ?_
    rw [inflight_set hio (by decide), h.count, if_pos rfl]
    omega
  | beginFlush =>
    simp only [St.step?] at hs
    split at hs
    · next hf => exact Option.some.inj hs ▸ hf ▸ h.beginFlush s.flushInProgress rfl (by rw [hf]; rfl)
    · next hf => exact Option.some.inj hs ▸ h.beginFlush true rfl (by simp [hf, Flush.between])
  | drained f =>
    simp only [St.step?] at hs
    split at hs
    · next x hx =>
      obtain ⟨⟨hphase, h0⟩, hs⟩ := Option.ite_none_right_eq_some.mp hs
      have hb : x.between = true := by rw [Flush.between, hphase]
      have hf := h.flag_of_between (List.mem_of_getElem? hx) hb
      exact Option.some.inj hs ▸ h.setPhase hx _ s.flushInProgress (by rw [hf, hb]; rfl) (fun _ => hb) fun _ i _ =>
        h.not_running h0 i
    · cases hs
  | timedOut f =>
    simp only [St.step?] at hs
    split at hs
    · next x hx =>
      obtain ⟨⟨hphase, -⟩, hs⟩ := Option.ite_none_right_eq_some.mp hs
      have hb : x.between = true := by rw [Flush.between, hphase]
      have hf := h.flag_of_between (List.mem_of_getElem? hx) hb
      exact Option.some.inj hs ▸ h.setPhase hx _ s.flushInProgress (by rw [hf, hb]; rfl) (fun _ => hb) nofun
    · cases hs
  | endFlush f =>
    simp only [St.step?] at hs
    split at hs
    · next before ok hx =>
      have hmem := List.mem_of_getElem? hx
      have hf := h.flag_of_between hmem rfl
      exact Option.some.inj hs ▸ h.setPhase hx _ false (by rw [hf]; rfl) nofun (h.clean ⟨before, .drained ok⟩ hmem)
    · cases hs
  | complete f =>
    simp only [St.step?] at hs
    split at hs
    · next before ok hx =>
      refine Option.some.inj hs ▸ h.setPhase hx _ s.flushInProgress rfl nofun fun hc => ?_
      refine h.clean _ (List.mem_of_getElem? hx) ?_
      cases ok with
      | true => rfl
      | false => cases hc
    · cases hs

end Inv

theorem inv_reachable {s : St} (h : volume.Reachable s) : Inv s := by
  have hinv : volume.Inductive Inv := by
    refine ⟨?_, fun s l s' h hs => h.step hs⟩
    intro s hs
    rw [hs]
    exact ⟨rfl, rfl, nofun, nofun, nofun⟩
  exact hinv.reachable h

/-- In every state, for every flush: if it has completed with `BLK_STS_OK`,
all I/Os accepted before it began have ended, and as long as it is between
begin and end, no I/O was accepted since it began. -/
theorem flush_is_barrier {s : St} (h : volume.Reachable s) {x : Flush} (hx : x ∈ s.flushes) :
    (x.phase = .completed .ok → ∀ i < x.before, s.ios[i]? ≠ some .running) ∧
      (x.phase = .draining ∨ (∃ ok, x.phase = .drained ok) → s.ios.length = x.before) := by
  have hinv := inv_reachable h
  refine ⟨fun hp => hinv.clean x hx (by rw [Flush.clean, hp]; rfl), fun hp => (hinv.held x hx ?_).symm⟩
  rcases hp with hp | ⟨ok, hp⟩
  · rw [Flush.between, hp]
  · rw [Flush.between, hp]

/-- Two I/Os, a flush that meets another one and an I/O that is refused. -/
def twoIos : List Act :=
  [.queueRq, .queueRq,
    .beginFlush, .beginFlush, .queueRq, .endRequest 1, .putIo 1, .endRequest 0, .putIo 0, .drained 0, .endFlush 0,
    .complete 0]

theorem twoIos_flushed : ∃ s, volume.Reachable s ∧
    s.flushes = [⟨2, .completed .ok⟩, ⟨2, .completed .resource⟩] ∧ ∀ i < 2, s.ios[i]? ≠ some .running := by
  have hinit : volume.Reachable ⟨[], 0, false, []⟩ := .of_init rfl
  have hfollow : Lts.follow St.step? (fun _ _ => True) ⟨[], 0, false, []⟩ twoIos =
      some ⟨[.put, .put], 0, false, [⟨2, .completed .ok⟩, ⟨2, .completed .resource⟩]⟩ := by decide
  have hend := hinit.run (Lts.Run.follow (fun _ _ _ h => h) hfollow).of_restrict
  exact ⟨_, hend, rfl, (flush_is_barrier hend List.mem_cons_self).1 rfl⟩

end Fastblock.L5.FlushBarrier
