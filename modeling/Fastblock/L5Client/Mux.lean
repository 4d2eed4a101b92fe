import Fastblock.Core.Lts
import Fastblock.L5Client.Exchange

/-!
# Requests that share an OSD socket

The requests of a volume to one OSD share a cached socket
(kfastblock/src/transport.c:1076-1147, 1330-1452, connpool.c:124-144). A
request registers a waiter, sends, queues the receive work and waits; the
work completes the waiter whose sequence number a response carries, or all
of them if the socket fails; a request that ends with an error shuts the
socket down, closes the slot and fails what is left. A step is one locked
section or one access outside of the locks.

The list of waiters is under `mux_waiter_lock`, but closing the slot
initialises it again without that lock, and so does connecting it, which
closes it first (transport.c:363). A sender that failed takes its waiter
off whatever list it is on. So a waiter can get lost: `waiter_lost`.
Without these, none is: `no_waiter_lost`.

Two things are more liberal than the source: `flush_work` only delays the
second section of a finalisation, so it is left out, and the waiters that
`kfastblock_transport_fail_mux_waiters` took off the list are completed in
any order.
-/
namespace Fastblock.L5.Mux

open Fastblock.Core
open Fastblock.L5.Exchange (errnoOfStatus)

/-- Where a request is in `kfastblock_transport_exec_mux_request_parts`. -/
inductive Phase
  | registered
  /-- sending failed -/
  | failed
  | sent
  /-- the receive work is queued, and the request waits for its
  completion -/
  | waiting
  /-- after the error of sending -/
  | returned
  deriving DecidableEq, Repr

/-- A request and its `kfastblock_transport_mux_waiter`. -/
structure Request where
  seq : UInt64
  phase : Phase
  /-- `waiter->ret` at each `complete` -/
  results : List (Option KErrno)
  unregistered : Bool
  deriving DecidableEq, Repr

/-- `kfastblock_transport_osd_mux_recv_work`. -/
inductive Run
  | idle
  /-- before `READ_ONCE(cached->mux_inflight)` -/
  | check
  | recv
  /-- the waiter of request `i` is off the list -/
  | deliver (i : Nat) (ret : Option KErrno)
  /-- before `kfastblock_transport_fail_mux_waiters` -/
  | splice (e : KErrno)
  deriving DecidableEq, Repr

/-- `kfastblock_transport_finalize_mux_osd_socket`. -/
inductive Fin
  /-- after its first section, which took `sock` -/
  | begun (sock : Option Nat) (ret : KErrno)
  /-- after its second section -/
  | closed (ret : KErrno)
  | done
  deriving DecidableEq, Repr

/-- `kfastblock_cached_socket`, with those who use it. -/
structure St where
  reqs : List Request := []
  /-- `mux_waiters`, by the number of the request -/
  waiters : List Nat := []
  inflight : Nat := 0
  /-- waiters on a list that was initialised again -/
  dropped : List Nat := []
  /-- the waiters that `kfastblock_transport_fail_mux_waiters` has still to
  complete -/
  failing : List (Nat × KErrno) := []
  sock : Option Nat := none
  dead : Bool := false
  /-- the receive work is queued -/
  pending : Bool := false
  run : Run := .idle
  fins : List Fin := []
  deriving DecidableEq, Repr

namespace St

variable (s : St)

def phaseOf (i : Nat) : Option Phase := s.reqs[i]?.map Request.phase

def setPhase (i : Nat) (phase : Phase) : St := { s with reqs := s.reqs.modify i fun q => { q with phase } }

def complete (i : Nat) (ret : Option KErrno) : St :=
  { s with reqs := s.reqs.modify i fun q => { q with results := q.results ++ [ret] } }

def unregister (i : Nat) : St :=
  { s with reqs := s.reqs.modify i fun q => { q with phase := .returned, unregistered := true } }

/-- The locked part of `kfastblock_transport_fail_mux_waiters`. -/
def spliceWaiters (e : KErrno) : St :=
  { s with failing := s.failing ++ s.waiters.map (·, e), waiters := [], inflight := 0 }

/-- The part of `kfastblock_transport_register_mux_waiter` after the
test. -/
def addWaiter (seq : UInt64) : St :=
  { s with
    reqs := s.reqs ++ [⟨seq, .registered, [], false⟩]
    waiters := s.waiters ++ [s.reqs.length]
    inflight := s.inflight + 1 }

def removeWaiter (i : Nat) : St := { s with waiters := s.waiters.erase i, inflight := s.inflight - 1 }

/-- `kfastblock_osd_conn_slot_close_locked`. -/
def closeSlot : St :=
  { s with sock := none, dead := false, inflight := 0, dropped := s.dropped ++ s.waiters, waiters := [] }

/-- `kfastblock_transport_find_mux_waiter_locked`. -/
def findWaiter (seq : UInt64) : Option Nat :=
  if seq = 0 then none else s.waiters.find? fun i => (s.reqs[i]?.map Request.seq) = some seq

end St

inductive Act
  | register (seq : UInt64)
  | send (i : Nat) (ok : Bool)
  | unregister (i : Nat)
  | queueWork (i : Nat)
  | start
  | check
  /-- A response arrives. -/
  | frame (seq : UInt64) (status : UInt32)
  /-- Receiving fails. -/
  | error (e : KErrno)
  | deliver
  | splice
  | completeFailed (i : Nat) (e : KErrno)
  /-- A request that ended with an error finalises the socket. -/
  | finalize (ret : KErrno)
  | close (k : Nat)
  | failAll (k : Nat)
  /-- The slot is connected again, or connecting fails. -/
  | connect (sock : Option Nat)
  deriving DecidableEq, Repr

def step? (s : St) : Act → Option St
  | .register seq => if s.dead then some s else some (s.addWaiter seq)
  | .send i ok =>
    if s.phaseOf i = some .registered then
      some (s.setPhase i (if s.sock.isSome && !s.dead && ok then .sent else .failed))
    else none
  | .unregister i =>
    if s.phaseOf i = some .failed then
      if i ∈ s.waiters then some ((s.unregister i).removeWaiter i)
      else if i ∈ s.failing.map Prod.fst then
        some { s.unregister i with failing := s.failing.filter (·.1 ≠ i), inflight := s.inflight - 1 }
      else if i ∈ s.dropped then none -- it is on a list that is no more
      else some (s.setPhase i .returned)
    else none
  | .queueWork i => if s.phaseOf i = some .sent then some { s.setPhase i .waiting with pending := true } else none
  | .start => if s.pending ∧ s.run = .idle then some { s with pending := false, run := .check } else none
  | .check => if s.run = .check then some { s with run := if s.inflight = 0 then .idle else .recv } else none
  | .frame seq status =>
    if s.run = .recv then
      match s.findWaiter seq with
      | none => some { s with run := .splice .eproto }
      | some i => some { s.removeWaiter i with run := .deliver i (errnoOfStatus status) }
    else none
  | .error e => if s.run = .recv then some { s with run := .splice e } else none
  | .deliver =>
    match s.run with
    | .deliver i ret => some { s.complete i ret with run := .check }
    | _ => none
  | .splice =>
    match s.run with
    | .splice e => some { s.spliceWaiters e with run := .idle }
    | _ => none
  | .completeFailed i e =>
    if (i, e) ∈ s.failing then some { s.complete i (some e) with failing := s.failing.erase (i, e) } else none
  | .finalize ret =>
    if s.sock.isSome && !s.dead then some { s with dead := true, fins := s.fins ++ [.begun s.sock ret] }
    else some { s with fins := s.fins ++ [.begun none ret] }
  | .close k =>
    match s.fins[k]? with
    | some (.begun sock ret) =>
      if s.sock = sock ∧ s.sock.isSome then some { s.closeSlot with fins := s.fins.set k (.closed ret) }
      else some { s with fins := s.fins.set k (.closed ret) }
    | _ => none
  | .failAll k =>
    match s.fins[k]? with
    | some (.closed ret) => some { s.spliceWaiters ret with fins := s.fins.set k .done }
    | _ => none
  | .connect sock => if s.sock = none then some { s.closeSlot with sock := sock } else none

/-- A slot of the pool, from before its first connection. -/
def mux : Lts St Act where
  init s := s = {}
  step s l s' := step? s l = some s'

/-- The steps of `step?`, branch by branch. -/
inductive Step (s : St) : Act → St → Prop
  | refused (seq : UInt64) : s.dead = true → Step s (.register seq) s
  | register (seq : UInt64) : s.dead = false → Step s (.register seq) (s.addWaiter seq)
  | send (i : Nat) (ok : Bool) : s.phaseOf i = some .registered →
      Step s (.send i ok) (s.setPhase i (if s.sock.isSome && !s.dead && ok then .sent else .failed))
  | unregister (i : Nat) : s.phaseOf i = some .failed → i ∈ s.waiters →
      Step s (.unregister i) ((s.unregister i).removeWaiter i)
  | snatch (i : Nat) : s.phaseOf i = some .failed → i ∈ s.failing.map Prod.fst → Step s (.unregister i)
      { s.unregister i with failing := s.failing.filter (·.1 ≠ i), inflight := s.inflight - 1 }
  | unlinked (i : Nat) : s.phaseOf i = some .failed → Step s (.unregister i) (s.setPhase i .returned)
  | queueWork (i : Nat) : s.phaseOf i = some .sent →
      Step s (.queueWork i) { s.setPhase i .waiting with pending := true }
  | start : s.run = .idle → Step s .start { s with pending := false, run := .check }
  | check : s.run = .check → Step s .check { s with run := if s.inflight = 0 then .idle else .recv }
  | unmatched (seq : UInt64) (status : UInt32) : s.run = .recv → s.findWaiter seq = none →
      Step s (.frame seq status) { s with run := .splice .eproto }
  | frame (seq : UInt64) (status : UInt32) (i : Nat) : s.run = .recv → s.findWaiter seq = some i →
      Step s (.frame seq status) { s.removeWaiter i with run := .deliver i (errnoOfStatus status) }
  | error (e : KErrno) : s.run = .recv → Step s (.error e) { s with run := .splice e }
  | deliver (i : Nat) (ret : Option KErrno) : s.run = .deliver i ret →
      Step s .deliver { s.complete i ret with run := .check }
  | splice (e : KErrno) : s.run = .splice e → Step s .splice { s.spliceWaiters e with run := .idle }
  | completeFailed (i : Nat) (e : KErrno) : (i, e) ∈ s.failing →
      Step s (.completeFailed i e) { s.complete i (some e) with failing := s.failing.erase (i, e) }
  | finalize (ret : KErrno) : s.sock.isSome = true → s.dead = false →
      Step s (.finalize ret) { s with dead := true, fins := s.fins ++ [.begun s.sock ret] }
  | finalizeNone (ret : KErrno) : s.sock.isSome = false ∨ s.dead = true →
      Step s (.finalize ret) { s with fins := s.fins ++ [.begun none ret] }
  | close (k : Nat) (sock : Nat) (ret : KErrno) : s.fins[k]? = some (.begun (some sock) ret) → s.sock = some sock →
      Step s (.close k) { s.closeSlot with fins := s.fins.set k (.closed ret) }
  | leave (k : Nat) (sock : Option Nat) (ret : KErrno) : s.fins[k]? = some (.begun sock ret) →
      Step s (.close k) { s with fins := s.fins.set k (.closed ret) }
  | failAll (k : Nat) (ret : KErrno) : s.fins[k]? = some (.closed ret) →
      Step s (.failAll k) { s.spliceWaiters ret with fins := s.fins.set k .done }
  | connect (sock : Option Nat) : s.sock = none → Step s (.connect sock) { s.closeSlot with sock := sock }

theorem step_cases {s s' : St} {l : Act} (h : step? s l = some s') : Step s l s' := by
  cases l <;> simp only [step?, Option.ite_none_right_eq_some, Option.some.injEq] at h
  case register seq =>
    split at h <;> obtain rfl := Option.some.inj h
    case isTrue hdead => exact .refused seq hdead
    case isFalse hdead => exact .register seq (by simpa using hdead)
  case send i ok =>
    obtain ⟨hphase, rfl⟩ := h
    exact .send i ok hphase
  case unregister i =>
    obtain ⟨hphase, h⟩ := h
    split at h
    case isTrue hmem =>
      obtain rfl := Option.some.inj h
      exact .unregister i hphase hmem
    split at h
    case isTrue hmem =>
      obtain rfl := Option.some.inj h
      exact .snatch i hphase hmem
    split at h
    · cases h
    obtain rfl := Option.some.inj h
    exact .unlinked i hphase
  case queueWork i =>
    obtain ⟨hphase, rfl⟩ := h
    exact .queueWork i hphase
  case start =>
    obtain ⟨⟨-, hrun⟩, rfl⟩ := h
    exact .start hrun
  case check =>
    obtain ⟨hrun, rfl⟩ := h
    exact .check hrun
  case frame seq status =>
    obtain ⟨hrun, h⟩ := h
    split at h <;> obtain rfl := Option.some.inj h
    case h_1 hfind => exact .unmatched seq status hrun hfind
    case h_2 i hfind => exact .frame seq status i hrun hfind
  case error e =>
    obtain ⟨hrun, rfl⟩ := h
    exact .error e hrun
  case deliver =>
    split at h
    case h_1 i ret hrun =>
      obtain rfl := Option.some.inj h
      exact .deliver i ret hrun
    · cases h
  case splice =>
    split at h
    case h_1 e hrun =>
      obtain rfl := Option.some.inj h
      exact .splice e hrun
    · cases h
  case completeFailed i e =>
    obtain ⟨hmem, rfl⟩ := h
    exact .completeFailed i e hmem
  case finalize ret =>
    split at h <;> obtain rfl := Option.some.inj h
    case isTrue hopen =>
      simp only [Bool.and_eq_true, Bool.not_eq_true'] at hopen
      exact .finalize ret hopen.1 hopen.2
    case isFalse hshut =>
      apply Step.finalizeNone ret
      by_contra hnot
      simp_all
  case close k =>
    split at h
    case h_1 sock ret hfin =>
      split at h <;> obtain rfl := Option.some.inj h
      case isTrue hsock =>
        obtain ⟨rfl, hsome⟩ := hsock
        obtain ⟨n, hn⟩ := Option.isSome_iff_exists.mp hsome
        exact .close k n ret (hn ▸ hfin) hn
      case isFalse => exact .leave k sock ret hfin
    · cases h
  case failAll k =>
    split at h
    case h_1 ret hfin =>
      obtain rfl := Option.some.inj h
      exact .failAll k ret hfin
    · cases h
  case connect sock =>
    obtain ⟨hsock, rfl⟩ := h
    exact .connect sock hsock

/-! ## No waiter is lost -/

/-- The waiter that the receive work has taken off the list. -/
def Run.carried : Run → List Nat
  | .deliver i _ => [i]
  | _ => []

/-- The waiters that will be completed. -/
def St.held (s : St) : List Nat := s.waiters ++ (s.run.carried ++ s.failing.map Prod.fst)

/-- Each waiter is on the list, about to be completed, unregistered by its
own request or completed, and so exactly once; the counter is the length
of the list; and while a request waits with its waiter on the list, the
receive work is queued or running. -/
structure Kept (s : St) : Prop where
  once : ∀ i q, s.reqs[i]? = some q → q.results.length + q.unregistered.toNat + s.held.count i = 1
  inflight : s.inflight = s.waiters.length
  heard : ∀ i ∈ s.waiters, s.phaseOf i = some .waiting → s.pending = true ∨ s.run ≠ .idle

/-- The second section of the `k`th finalisation finds the socket it
took. -/
def St.closes (s : St) (k : Nat) : Bool :=
  match s.fins[k]? with
  | some (.begun (some sock) _) => s.sock = some sock
  | _ => false

/-- The slot is not closed or connected with waiters on its list, and no
sender unregisters a waiter that is failing. -/
def Careful (s : St) : Act → Prop
  | .close k => s.closes k = true → s.waiters = []
  | .connect _ => s.waiters = []
  | .unregister i => i ∉ s.failing.map Prod.fst
  | _ => True

instance (s : St) (l : Act) : Decidable (Careful s l) := by
  cases l <;> unfold Careful <;> infer_instance

def Request.ends (q : Request) : Nat := q.results.length + q.unregistered.toNat

/-- What has become of the waiter of request `i`, counted. -/
def St.tally (s : St) (i : Nat) : Nat := ((s.reqs[i]?).map Request.ends).getD 0 + s.held.count i

structure Inv (s : St) : Prop where
  tally : ∀ i, s.tally i = if i < s.reqs.length then 1 else 0
  inflight : s.inflight = s.waiters.length
  heard : ∀ i ∈ s.waiters, s.phaseOf i = some .waiting → s.pending = true ∨ s.run ≠ .idle

theorem ends_modify {l : List Request} {i : Nat} {f : Request → Request} {d : Nat} (hi : i < l.length ∨ d = 0)
    (hf : ∀ q, l[i]? = some q → (f q).ends = q.ends + d) (j : Nat) :
    (((l.modify i f)[j]?).map Request.ends).getD 0 = ((l[j]?).map Request.ends).getD 0 + if i = j then d else 0 := by
  rw [List.getElem?_modify]
  by_cases hj : i = j
  · subst hj
    cases hq : l[i]? with
    | some q => simp [hf q hq]
    | none =>
      have hlen : l.length ≤ i := List.getElem?_eq_none_iff.mp hq
      have hd : d = 0 := hi.resolve_left (by omega)
      simp [hd]
  · simp [hj]

theorem phaseOf_modify (s : St) (i : Nat) (f : Request → Request) (j : Nat) (hj : i ≠ j) :
    ((s.reqs.modify i f)[j]?).map Request.phase = s.phaseOf j := by
  rw [List.getElem?_modify]
  simp [hj, St.phaseOf]

/-- Whoever has a waiter has that of a request, which has not ended. -/
theorem Inv.lt {s : St} (hi : Inv s) {i : Nat} (hheld : i ∈ s.held) : i < s.reqs.length := by
  have hcount : 0 < s.held.count i := List.count_pos_iff.mpr hheld
  have htally := hi.tally i
  unfold St.tally at htally
  by_contra hlt
  rw [if_neg hlt] at htally
  omega

theorem Inv.ends_eq {s : St} (hi : Inv s) {i : Nat} (hheld : i ∈ s.held) {q : Request} (hq : s.reqs[i]? = some q) :
    q.ends = 0 := by
  have hcount : 0 < s.held.count i := List.count_pos_iff.mpr hheld
  have htally := hi.tally i
  rw [St.tally, hq, if_pos (hi.lt hheld)] at htally
  simp only [Option.map_some, Option.getD_some] at htally
  omega

/-- A step that adds no request and leaves each tally as it is. -/
theorem Inv.of_tally {s s' : St} (hi : Inv s) (hlen : s'.reqs.length = s.reqs.length)
    (htally : ∀ j, s'.tally j = s.tally j) : ∀ j, s'.tally j = if j < s'.reqs.length then 1 else 0 := by
  intro j
  rw [htally, hlen]
  exact hi.tally j

theorem Inv.addWaiter {s : St} (hi : Inv s) (seq : UInt64) :
    Inv (s.addWaiter seq) where
  tally j := by
    have htally := hi.tally j
    simp only [St.tally, St.held, St.addWaiter, List.count_append, List.count_singleton, List.getElem?_append,
      List.length_append] at htally ⊢
    by_cases hj : j < s.reqs.length
    · have hne : s.reqs.length ≠ j := by omega
      have hlt : j < s.reqs.length + 1 := by omega
      simpa [hj, hne, hlt] using htally
    · rw [List.getElem?_eq_none (by omega)] at htally
      by_cases hlast : s.reqs.length = j
      · subst hlast
        simp [Request.ends] at htally ⊢
        omega
      · have hge : ¬ j < s.reqs.length + 1 := by omega
        have hat : ([⟨seq, .registered, [], false⟩] : List Request)[j - s.reqs.length]? = none :=
          List.getElem?_eq_none (by simp; omega)
        simp [hj, hlast, hge, hat] at htally ⊢
        omega
  inflight := by simp [St.addWaiter, hi.inflight]
  heard i hmem hphase := by
    rcases List.mem_append.mp hmem with hold | hnew
    · have hlt := hi.lt (List.mem_append_left _ hold)
      apply hi.heard i hold
      simpa [St.phaseOf, St.addWaiter, List.getElem?_append, hlt] using hphase
    · rw [List.mem_singleton.mp hnew] at hphase
      simp [St.phaseOf, St.addWaiter] at hphase

/-- A request moves on, and its waiter stays where it is. -/
theorem Inv.setPhase {s : St} (hi : Inv s) (i : Nat) (phase : Phase) (pending : Bool)
    (hpending : s.pending = true → pending = true) (hphase : phase = .waiting → pending = true) :
    Inv { s.setPhase i phase with pending } where
  tally := by
    apply hi.of_tally (List.length_modify ..)
    intro j
    have hends := ends_modify (l := s.reqs) (i := i) (f := fun q => { q with phase }) (.inr rfl) (fun _ _ => rfl) j
    simp only [St.tally, St.setPhase, St.held, hends]
    simp
  inflight := hi.inflight
  heard j hmem hwaiting := by
    by_cases hj : i = j
    · subst hj
      obtain ⟨q, -, hq⟩ : ∃ q, s.reqs[i]? = some q ∧ phase = .waiting := by
        simpa [St.phaseOf, St.setPhase] using hwaiting
      exact .inl (hphase hq)
    · have hold := phaseOf_modify s i (fun q => { q with phase }) j hj
      exact (hi.heard j hmem (hold.symm.trans hwaiting)).imp_left hpending

theorem count_erase_add {α : Type} [DecidableEq α] {l : List α} {a : α} (h : a ∈ l) (b : α) :
    (l.erase a).count b + (if a = b then 1 else 0) = l.count b := by
  rw [(List.perm_cons_erase h).count_eq b, List.count_cons]
  simp

/-- A waiter that was held is completed or unregistered. -/
theorem Inv.of_end {s s' : St} (hi : Inv s) {i : Nat} {f : Request → Request} (hf : ∀ q, q.ends = 0 → (f q).ends = 1)
    (hreqs : s'.reqs = s.reqs.modify i f) (hmem : i ∈ s.held)
    (hheld : ∀ j, s'.held.count j + (if i = j then 1 else 0) = s.held.count j) :
    ∀ j, s'.tally j = if j < s'.reqs.length then 1 else 0 := by
  apply hi.of_tally (by rw [hreqs, List.length_modify])
  intro j
  have hends : ∀ q, s.reqs[i]? = some q → (f q).ends = q.ends + 1 := by
    intro q hq
    have hzero := hi.ends_eq hmem hq
    rw [hf q hzero, hzero]
  have hmodify := ends_modify (.inl (hi.lt hmem)) hends j
  have hcount := hheld j
  simp only [St.tally, hreqs, hmodify]
  omega

theorem ends_complete (q : Request) (ret : Option KErrno) (hq : q.ends = 0) :
    ({ q with results := q.results ++ [ret] } : Request).ends = 1 := by
  simp only [Request.ends, List.length_append, List.length_singleton] at hq ⊢
  omega

theorem phaseOf_complete (s : St) (i : Nat) (ret : Option KErrno) (j : Nat) :
    (s.complete i ret).phaseOf j = s.phaseOf j := by
  simp only [St.phaseOf, St.complete, List.getElem?_modify]
  cases s.reqs[j]? with
  | none => rfl
  | some q => by_cases hj : i = j <;> simp [hj]

theorem Inv.length_erase {s : St} (hi : Inv s) {i : Nat} (hmem : i ∈ s.waiters) :
    s.inflight - 1 = (s.waiters.erase i).length := by
  rw [hi.inflight, List.length_erase_of_mem hmem]

theorem Inv.unregister {s : St} (hi : Inv s) {i : Nat} (hmem : i ∈ s.waiters) :
    Inv ((s.unregister i).removeWaiter i) where
  tally := by
    apply hi.of_end (f := fun q => { q with phase := .returned, unregistered := true }) _ rfl
      (List.mem_append_left _ hmem)
    · intro j
      have hcount := count_erase_add hmem j
      simp only [St.held, St.unregister, St.removeWaiter, List.count_append]
      omega
    · intro q hq
      simp only [Request.ends, Bool.toNat_true] at hq ⊢
      omega
  inflight := hi.length_erase hmem
  heard j hj hwaiting := by
    by_cases hij : i = j
    · subst hij
      simp [St.phaseOf, St.unregister, St.removeWaiter] at hwaiting
    · apply hi.heard j (List.mem_of_mem_erase hj)
      rw [← hwaiting]
      exact (phaseOf_modify s i _ j hij).symm

theorem Inv.frame {s : St} (hi : Inv s) (hrun : s.run = .recv) {i : Nat} (hmem : i ∈ s.waiters) (ret : Option KErrno) :
    Inv { s.removeWaiter i with run := .deliver i ret } where
  tally := by
    refine hi.of_tally rfl fun j => ?_
    have hcount := count_erase_add hmem j
    simp only [St.tally, St.held, St.removeWaiter, hrun, Run.carried, List.count_append, List.count_singleton,
      List.count_nil, beq_iff_eq]
    omega
  inflight := hi.length_erase hmem
  heard _ _ _ := .inr (by simp)

theorem Inv.deliver {s : St} (hi : Inv s) {i : Nat} {ret : Option KErrno} (hrun : s.run = .deliver i ret) :
    Inv { s.complete i ret with run := .check } where
  tally := by
    apply hi.of_end (fun q hq => ends_complete q ret hq) rfl
    · simp [St.held, hrun, Run.carried]
    · intro j
      simp only [St.held, St.complete, hrun, Run.carried, List.count_append, List.count_singleton,
        List.count_nil, beq_iff_eq]
      omega
  inflight := hi.inflight
  heard _ _ _ := .inr (by simp)

/-- The waiters go from the list to the local one. -/
theorem tally_spliceWaiters (s : St) (e : KErrno) (j : Nat) : (s.spliceWaiters e).tally j = s.tally j := by
  simp only [St.tally, St.held, St.spliceWaiters, List.map_append, List.map_map, List.count_append, List.count_nil]
  have hmap : s.waiters.map (Prod.fst ∘ fun i => (i, e)) = s.waiters := List.map_id _
  rw [hmap]
  omega

theorem Inv.spliceWaiters {s : St} (hi : Inv s) (e : KErrno) : Inv (s.spliceWaiters e) where
  tally := hi.of_tally rfl (tally_spliceWaiters s e)
  inflight := rfl
  heard _ hmem := absurd hmem List.not_mem_nil

theorem Inv.completeFailed {s : St} (hi : Inv s) {i : Nat} {e : KErrno} (hmem : (i, e) ∈ s.failing) :
    Inv { s.complete i (some e) with failing := s.failing.erase (i, e) } where
  tally := by
    have hheld : i ∈ s.failing.map Prod.fst := List.mem_map_of_mem hmem
    apply hi.of_end (fun q hq => ends_complete q (some e) hq) rfl
    · exact List.mem_append_right _ (List.mem_append_right _ hheld)
    · intro j
      have hperm := ((List.perm_cons_erase hmem).map Prod.fst).count_eq j
      simp only [List.map_cons, List.count_cons, beq_iff_eq] at hperm
      simp only [St.held, St.complete, List.count_append]
      omega
  inflight := hi.inflight
  heard j hj hwaiting := hi.heard j hj ((phaseOf_complete s i (some e) j).symm.trans hwaiting)

/-- The work is at a place where it has no waiter, before and after. -/
theorem Inv.setRun {s : St} (hi : Inv s) (run : Run) (pending : Bool) (hold : s.run.carried = [])
    (hnew : run.carried = []) (hidle : run = .idle → s.inflight = 0) : Inv { s with run, pending } where
  tally := by
    refine hi.of_tally rfl fun j => ?_
    simp only [St.tally, St.held, hold, hnew]
  inflight := hi.inflight
  heard i hmem _ := by
    refine .inr fun hrun => ?_
    have hnil : s.waiters = [] := List.eq_nil_of_length_eq_zero (hi.inflight ▸ hidle hrun)
    exact absurd (hnil ▸ hmem) List.not_mem_nil

/-- What a finalisation does to the slot while nobody waits there. -/
theorem Inv.closeSlot {s : St} (hi : Inv s) (hnil : s.waiters = []) : Inv s.closeSlot where
  tally := by
    refine hi.of_tally rfl fun j => ?_
    simp only [St.tally, St.held, St.closeSlot, hnil]
  inflight := rfl
  heard _ hmem := absurd hmem List.not_mem_nil

/-- The socket and the finalisations are not part of it. -/
theorem Inv.setSock {s : St} (hi : Inv s) (sock : Option Nat) (dead : Bool) (fins : List Fin) :
    Inv { s with sock, dead, fins } :=
  ⟨hi.tally, hi.inflight, hi.heard⟩

theorem findWaiter_eq_some {s : St} {seq : UInt64} {i : Nat} (h : s.findWaiter seq = some i) :
    i ∈ s.waiters ∧ (s.reqs[i]?).map Request.seq = some seq := by
  unfold St.findWaiter at h
  split at h
  · cases h
  · exact ⟨List.mem_of_find?_eq_some h, by simpa using List.find?_some h⟩

theorem Inv.step {s s' : St} {l : Act} (hi : Inv s) (hcareful : Careful s l) (hstep : Step s l s') : Inv s' := by
  cases hstep with
  | refused => exact hi
  | register seq => exact hi.addWaiter seq
  | send i =>
    apply hi.setPhase i _ s.pending id
    split <;> simp
  | unregister i _ hmem => exact hi.unregister hmem
  | snatch i _ hmem => exact absurd hmem hcareful
  | unlinked i => exact hi.setPhase i .returned s.pending id (by simp)
  | queueWork i => exact hi.setPhase i .waiting true (fun _ => rfl) (fun _ => rfl)
  | start hrun => exact hi.setRun .check false (by rw [hrun]; rfl) rfl (by simp)
  | check hrun =>
    apply hi.setRun _ s.pending (by rw [hrun]; rfl)
    · split <;> rfl
    · split <;> simp_all
  | unmatched _ _ hrun => exact hi.setRun _ s.pending (by rw [hrun]; rfl) rfl (by simp)
  | frame _ _ i hrun hfind => exact hi.frame hrun (findWaiter_eq_some hfind).1 _
  | error _ hrun => exact hi.setRun _ s.pending (by rw [hrun]; rfl) rfl (by simp)
  | deliver _ _ hrun => exact hi.deliver hrun
  | splice e hrun =>
    have hcarried : (s.spliceWaiters e).run.carried = [] := congrArg Run.carried hrun
    exact (hi.spliceWaiters e).setRun .idle s.pending hcarried rfl (fun _ => rfl)
  | completeFailed _ _ hmem => exact hi.completeFailed hmem
  | finalize => exact hi.setSock s.sock true _
  | finalizeNone => exact hi.setSock s.sock s.dead _
  | close k sock ret hfin hsock =>
    have hnil := hcareful (by simp [St.closes, hfin, hsock])
    exact (hi.closeSlot hnil).setSock none false _
  | leave => exact hi.setSock s.sock s.dead _
  | failAll _ ret => exact (hi.spliceWaiters ret).setSock s.sock s.dead _
  | connect sock => exact (hi.closeSlot hcareful).setSock sock false s.fins

theorem inv_inductive : (mux.restrict Careful).Inductive Inv := by
  refine ⟨?_, fun s l s' hi hstep => hi.step hstep.1 (step_cases hstep.2)⟩
  intro s hs
  obtain rfl : s = {} := hs
  exact ⟨fun _ => by simp [St.tally, St.held, Run.carried], rfl, fun _ hmem => absurd hmem List.not_mem_nil⟩

theorem Inv.kept {s : St} (hi : Inv s) : Kept s where
  once i q hq := by
    obtain ⟨hlt, -⟩ := List.getElem?_eq_some_iff.mp hq
    have htally := hi.tally i
    rw [St.tally, hq, if_pos hlt] at htally
    exact htally
  inflight := hi.inflight
  heard := hi.heard

def Request.isSent (q : Request) : Bool := q.phase = .sent || q.phase = .waiting

def St.sentAt (s : St) (i : Nat) : Bool := (s.reqs[i]?).any Request.isSent

/-- The socket is shut down, or gone. -/
def St.shut (s : St) : Bool := s.dead || s.sock.isNone

/-- One connection, and the sequence numbers that the OSD has answered. -/
structure Conn where
  mux : St
  answered : List UInt64
  deriving DecidableEq, Repr

/-- The OSD answers each request that was sent with one frame, which has the
status `answers` gives it, and the connection works until it is shut down
here; a request finalises the socket because of its own result. -/
def Offered (answers : Nat → UInt32) (c : Conn) : Act → Prop
  | .register seq => seq ≠ 0 ∧ ∀ q ∈ c.mux.reqs, q.seq ≠ seq
  | .send _ ok => ok = true
  | .frame seq status =>
    seq ∉ c.answered ∧ ∃ p ∈ c.mux.reqs.zipIdx, p.1.isSent = true ∧ p.1.seq = seq ∧ status = answers p.2
  | .error _ => c.mux.shut = true
  | .finalize ret => ∃ q ∈ c.mux.reqs, q.results = [some ret] ∨ q.phase = .returned
  | .connect _ => False
  | _ => True

instance (answers : Nat → UInt32) (c : Conn) (l : Act) : Decidable (Offered answers c l) := by
  cases l <;> unfold Offered <;> infer_instance

def Act.answer (answered : List UInt64) : Act → List UInt64
  | .frame seq _ => seq :: answered
  | _ => answered

def Conn.step? (answers : Nat → UInt32) (c : Conn) (l : Act) : Option Conn :=
  if Offered answers c l then (Mux.step? c.mux l).map (⟨·, l.answer c.answered⟩) else none

def conn (answers : Nat → UInt32) : Lts Conn Act where
  init c := c = ⟨{ sock := some 0 }, []⟩
  step c l c' := c.step? answers l = some c'

/-- The socket is finalised only if no request that was sent waits for its
response. -/
def Drained (c : Conn) : Act → Prop
  | .finalize _ => ∀ i ∈ c.mux.waiters, c.mux.sentAt i = false
  | _ => True

instance (c : Conn) (l : Act) : Decidable (Drained c l) := by
  cases l <;> unfold Drained <;> infer_instance

structure Own (answers : Nat → UInt32) (s : St) (answered : List UInt64) : Prop where
  seqs : ∀ (i j : Nat) (q q' : Request), s.reqs[i]? = some q → s.reqs[j]? = some q' → q.seq = q'.seq → i = j
  pos : ∀ (i : Nat) (q : Request), s.reqs[i]? = some q → q.seq ≠ 0
  right : ∀ i q, s.reqs[i]? = some q → q.isSent = true → ∀ ret ∈ q.results, ret = errnoOfStatus (answers i)
  -- no response is awaited on a socket that is shut down, and before that nothing fails
  quiet : s.shut = true → ∀ i ∈ s.waiters, s.sentAt i = false
  failing : ∀ p ∈ s.failing, s.shut = true ∧ s.sentAt p.1 = false
  splice : ∀ e, s.run = .splice e → s.shut = true
  fins : s.fins ≠ [] → s.shut = true
  deliver : ∀ i ret, s.run = .deliver i ret → s.sentAt i = true ∧ ret = errnoOfStatus (answers i)
  fresh : s.shut = false → ∀ i q, s.reqs[i]? = some q → q.phase = .registered → i ∈ s.waiters ∧ q.results = []
  awaited : s.shut = false → ∀ i q, s.reqs[i]? = some q → q.isSent = true → q.seq ∉ answered → i ∈ s.waiters

theorem sentAt_of_getElem? {s : St} {i : Nat} {q : Request} (hq : s.reqs[i]? = some q) : s.sentAt i = q.isSent := by
  simp [St.sentAt, hq]

theorem phase_of_phaseOf {s : St} {i : Nat} {phase : Phase} (h : s.phaseOf i = some phase) {q : Request}
    (hq : s.reqs[i]? = some q) : q.phase = phase := by
  simpa [St.phaseOf, hq] using h

theorem getElem?_of_modify {l : List Request} {i j : Nat} {f : Request → Request} {q : Request}
    (h : (l.modify i f)[j]? = some q) : ∃ q₀, l[j]? = some q₀ ∧ q = if i = j then f q₀ else q₀ := by
  rw [List.getElem?_modify] at h
  obtain ⟨q₀, hq₀, rfl⟩ := Option.map_eq_some_iff.mp h
  exact ⟨q₀, hq₀, rfl⟩

section Own

variable {answers : Nat → UInt32} {s : St} {answered : List UInt64}

/-- One request changes. -/
theorem Own.modify (ho : Own answers s answered) (i : Nat) (f : Request → Request) (hseq : ∀ q, (f q).seq = q.seq)
    (hright : ∀ q, s.reqs[i]? = some q → (f q).isSent = true → ∀ ret ∈ (f q).results, ret = errnoOfStatus (answers i))
    (hsent : ∀ q, s.reqs[i]? = some q → (f q).isSent = true → q.isSent = true ∨
      (s.shut = false ∧ q.phase = .registered))
    (hkeep : ∀ q, s.reqs[i]? = some q → q.isSent = true → (f q).isSent = true)
    (hfresh : ∀ q, s.reqs[i]? = some q → s.shut = false → (f q).phase ≠ .registered) :
    Own answers { s with reqs := s.reqs.modify i f } answered := by
  -- each request after the step, from one before it
  have hback : ∀ j q, (s.reqs.modify i f)[j]? = some q → ∃ q₀, s.reqs[j]? = some q₀ ∧ q.seq = q₀.seq ∧
      (q = q₀ ∨ (i = j ∧ q = f q₀)) := by
    intro j q hq
    obtain ⟨q₀, hq₀, heq⟩ := getElem?_of_modify hq
    split at heq
    case isTrue hij => exact ⟨q₀, hq₀, heq ▸ hseq q₀, .inr ⟨hij, heq⟩⟩
    case isFalse => exact ⟨q₀, hq₀, heq ▸ rfl, .inl heq⟩
  have hunsent : ∀ j, s.shut = true → s.sentAt j = false →
      St.sentAt { s with reqs := s.reqs.modify i f } j = false := by
    intro j hshut hj
    apply Bool.eq_false_iff.mpr
    intro hnow
    obtain ⟨q, hq, hqsent⟩ := (Option.any_eq_true ..).mp hnow
    obtain ⟨q₀, hq₀, -, rfl | ⟨rfl, rfl⟩⟩ := hback j q hq
    · simp [sentAt_of_getElem? hq₀, hqsent] at hj
    · rcases hsent q₀ hq₀ hqsent with hold | ⟨hopen, -⟩
      · simp [sentAt_of_getElem? hq₀, hold] at hj
      · simp [hshut] at hopen
  refine ⟨?_, ?_, ?_, ?_, ?_, ho.splice, ho.fins, ?_, ?_, ?_⟩
  · intro j k q q' hq hq' heq
    obtain ⟨q₀, hq₀, hseq₀, -⟩ := hback j q hq
    obtain ⟨q₁, hq₁, hseq₁, -⟩ := hback k q' hq'
    exact ho.seqs j k q₀ q₁ hq₀ hq₁ (hseq₀ ▸ hseq₁ ▸ heq)
  · intro j q hq
    obtain ⟨q₀, hq₀, hseq₀, -⟩ := hback j q hq
    exact hseq₀ ▸ ho.pos j q₀ hq₀
  · intro j q hq
    obtain ⟨q₀, hq₀, -, rfl | ⟨rfl, rfl⟩⟩ := hback j q hq
    · exact ho.right j q hq₀
    · exact hright q₀ hq₀
  · exact fun hshut j hmem => hunsent j hshut (ho.quiet hshut j hmem)
  · intro p hmem
    obtain ⟨hshut, hold⟩ := ho.failing p hmem
    exact ⟨hshut, hunsent p.1 hshut hold⟩
  · intro j ret hrun
    obtain ⟨hj, hret⟩ := ho.deliver j ret hrun
    refine ⟨?_, hret⟩
    obtain ⟨q, hq, hqsent⟩ := (Option.any_eq_true ..).mp hj
    by_cases hij : i = j
    · subst hij
      simp [St.sentAt, hq, hkeep q hq hqsent]
    · simp [St.sentAt, hq, hij, hqsent]
  · intro hopen j q hq hphase
    obtain ⟨q₀, hq₀, -, rfl | ⟨rfl, rfl⟩⟩ := hback j q hq
    · exact ho.fresh hopen j q hq₀ hphase
    · exact absurd hphase (hfresh q₀ hq₀ hopen)
  · intro hopen j q hq hqsent hanswered
    obtain ⟨q₀, hq₀, hseq₀, rfl | ⟨rfl, rfl⟩⟩ := hback j q hq
    · exact ho.awaited hopen j q hq₀ hqsent hanswered
    · rcases hsent q₀ hq₀ hqsent with hold | ⟨-, hreg⟩
      · exact ho.awaited hopen i q₀ hq₀ hold (hseq₀ ▸ hanswered)
      · exact (ho.fresh hopen i q₀ hq₀ hreg).1

theorem Own.answer (ho : Own answers s answered) (seq : UInt64) : Own answers s (seq :: answered) :=
  { ho with awaited := fun hopen i q hq hsent hseq =>
    ho.awaited hopen i q hq hsent (List.not_mem_of_not_mem_cons hseq) }

/-- A waiter goes from the list whose request does not need it there. -/
theorem Own.removeWaiter (ho : Own answers s answered) {i : Nat}
    (hi : ∀ q, s.reqs[i]? = some q → q.phase ≠ .registered ∧ (q.isSent = true → q.seq ∈ answered)) :
    Own answers (s.removeWaiter i) answered :=
  { ho with
    quiet := fun hshut j hj => ho.quiet hshut j (List.mem_of_mem_erase hj)
    fresh := by
      intro hopen j q hq hphase
      obtain ⟨hmem, hresults⟩ := ho.fresh hopen j q hq hphase
      have hne : j ≠ i := by
        rintro rfl
        exact (hi q hq).1 hphase
      exact ⟨(List.mem_erase_of_ne hne).mpr hmem, hresults⟩
    awaited := by
      intro hopen j q hq hsent hseq
      have hne : j ≠ i := by
        rintro rfl
        exact hseq ((hi q hq).2 hsent)
      exact (List.mem_erase_of_ne hne).mpr (ho.awaited hopen j q hq hsent hseq) }

theorem Own.setRun (ho : Own answers s answered) (run : Run) (pending : Bool)
    (hsplice : ∀ e, run = .splice e → s.shut = true)
    (hdeliver : ∀ i ret, run = .deliver i ret → s.sentAt i = true ∧ ret = errnoOfStatus (answers i)) :
    Own answers { s with run, pending } answered :=
  { ho with splice := hsplice, deliver := hdeliver }

/-- On a socket that is shut down the waiters are those of requests that
will not be sent. -/
theorem Own.spliceWaiters (ho : Own answers s answered) (hshut : s.shut = true) (e : KErrno) :
    Own answers (s.spliceWaiters e) answered :=
  { ho with
    quiet := fun _ _ hmem => absurd hmem List.not_mem_nil
    failing := by
      intro p hmem
      rcases List.mem_append.mp hmem with hold | hnew
      · exact ho.failing p hold
      · obtain ⟨i, hi, rfl⟩ := List.mem_map.mp hnew
        exact ⟨hshut, ho.quiet hshut i hi⟩
    fresh := fun hopen => Bool.noConfusion (hopen.symm.trans hshut)
    awaited := fun hopen => Bool.noConfusion (hopen.symm.trans hshut) }

/-- The socket is shut down, by a finalisation or for good. -/
theorem Own.setShut (ho : Own answers s answered) {waiters dropped : List Nat} {inflight : Nat}
    {sock : Option Nat} {dead : Bool}
    {fins : List Fin} (hshut : (dead || sock.isNone) = true) (hquiet : ∀ i ∈ waiters, s.sentAt i = false) :
    Own answers { s with waiters, inflight, dropped, sock, dead, fins } answered :=
  { ho with
    quiet := fun _ => hquiet
    failing := fun p hmem => ⟨hshut, (ho.failing p hmem).2⟩
    splice := fun _ _ => hshut
    fins := fun _ => hshut
    fresh := fun hopen => Bool.noConfusion (hopen.symm.trans hshut)
    awaited := fun hopen => Bool.noConfusion (hopen.symm.trans hshut) }

theorem getElem?_addWaiter {seq : UInt64} {i : Nat} {q : Request} (hq : (s.addWaiter seq).reqs[i]? = some q) :
    s.reqs[i]? = some q ∨ (i = s.reqs.length ∧ q = ⟨seq, .registered, [], false⟩) := by
  simp only [St.addWaiter, List.getElem?_append] at hq
  split at hq
  · exact .inl hq
  · obtain ⟨hlen, rfl⟩ := List.getElem?_eq_some_iff.mp hq
    simp only [List.length_singleton] at hlen
    exact .inr ⟨by omega, by simp⟩

theorem Own.addWaiter (ho : Own answers s answered) {seq : UInt64} (hpos : seq ≠ 0)
    (hnew : ∀ q ∈ s.reqs, q.seq ≠ seq) :
    Own answers (s.addWaiter seq) answered := by
  have hsentAt : ∀ i, (s.addWaiter seq).sentAt i = s.sentAt i := by
    intro i
    simp only [St.sentAt, St.addWaiter, List.getElem?_append]
    by_cases hlt : i < s.reqs.length
    · simp [hlt]
    · have hnone : s.reqs[i]? = none := List.getElem?_eq_none (by omega)
      rw [if_neg hlt, hnone]
      cases hi : ([⟨seq, .registered, [], false⟩] : List Request)[i - s.reqs.length]? with
      | none => rfl
      | some q =>
        obtain rfl := List.mem_singleton.mp (List.mem_of_getElem? hi)
        rfl
  have hlast : s.sentAt s.reqs.length = false := by simp [St.sentAt]
  refine ⟨?_, ?_, ?_, ?_, ?_, ho.splice, ho.fins, ?_, ?_, ?_⟩
  · intro i j q q' hq hq' heq
    rcases getElem?_addWaiter hq with hq | ⟨rfl, rfl⟩ <;> rcases getElem?_addWaiter hq' with hq' | ⟨rfl, rfl⟩
    · exact ho.seqs i j q q' hq hq' heq
    · exact absurd heq (hnew q (List.mem_of_getElem? hq))
    · exact absurd heq.symm (hnew q' (List.mem_of_getElem? hq'))
    · rfl
  · intro i q hq
    rcases getElem?_addWaiter hq with hq | ⟨rfl, rfl⟩
    · exact ho.pos i q hq
    · exact hpos
  · intro i q hq hsent
    rcases getElem?_addWaiter hq with hq | ⟨rfl, rfl⟩
    · exact ho.right i q hq hsent
    · cases hsent
  · intro hshut i hmem
    rw [hsentAt]
    rcases List.mem_append.mp hmem with hold | hadded
    · exact ho.quiet hshut i hold
    · rw [List.mem_singleton.mp hadded]
      exact hlast
  · intro p hmem
    rw [hsentAt]
    exact ho.failing p hmem
  · intro i ret hrun
    rw [hsentAt]
    exact ho.deliver i ret hrun
  · intro hopen i q hq hphase
    rcases getElem?_addWaiter hq with hq | ⟨rfl, rfl⟩
    · obtain ⟨hmem, hresults⟩ := ho.fresh hopen i q hq hphase
      exact ⟨List.mem_append_left _ hmem, hresults⟩
    · exact ⟨List.mem_append_right _ (List.mem_singleton.mpr rfl), rfl⟩
  · intro hopen i q hq hsent hseq
    rcases getElem?_addWaiter hq with hq | ⟨rfl, rfl⟩
    · exact List.mem_append_left _ (ho.awaited hopen i q hq hsent hseq)
    · cases hsent

/-- A request that was not sent, and will not be. -/
theorem Own.retire (ho : Own answers s answered) {i : Nat} {phase : Phase} (hi : s.phaseOf i = some phase)
    (hphase : phase = .registered ∨ phase = .failed) {f : Request → Request} (hseq : ∀ q, (f q).seq = q.seq)
    (hf : ∀ q, (f q).phase = .failed ∨ (f q).phase = .returned) :
    Own answers { s with reqs := s.reqs.modify i f } answered := by
  have hunsent : ∀ q, ¬ (f q).isSent = true := by
    intro q
    rcases hf q with h | h <;> simp [Request.isSent, h]
  apply ho.modify i f hseq
  · exact fun q _ hsent => absurd hsent (hunsent q)
  · exact fun q _ hsent => absurd hsent (hunsent q)
  · intro q hq hsent
    rcases hphase with rfl | rfl <;> simp [Request.isSent, phase_of_phaseOf hi hq] at hsent
  · intro q _ _
    rcases hf q with h | h <;> simp [h]

theorem Own.send (ho : Own answers s answered) {i : Nat} (hi : s.phaseOf i = some .registered) :
    Own answers (s.setPhase i (if s.sock.isSome && !s.dead && true then .sent else .failed)) answered := by
  split
  case isFalse => exact ho.retire hi (.inl rfl) (fun _ => rfl) (fun _ => .inl rfl)
  case isTrue hsock =>
    have hopen : s.shut = false := by
      cases hdead : s.dead <;> cases hs : s.sock <;> simp_all [St.shut]
    have hreg : ∀ q, s.reqs[i]? = some q → q.phase = .registered := fun _ => phase_of_phaseOf hi
    refine ho.modify i (fun q => { q with phase := .sent }) (fun _ => rfl) ?_ ?_ ?_ ?_
    · intro q hq _ ret hret
      have hresults := (ho.fresh hopen i q hq (hreg q hq)).2
      exact absurd (hresults ▸ hret) List.not_mem_nil
    · exact fun q hq _ => .inr ⟨hopen, hreg q hq⟩
    · exact fun _ _ _ => rfl
    · exact fun _ _ _ => by simp

theorem Own.queueWork (ho : Own answers s answered) {i : Nat} (hi : s.phaseOf i = some .sent) :
    Own answers (s.setPhase i .waiting) answered := by
  have hsent : ∀ q, s.reqs[i]? = some q → q.isSent = true := by
    intro q hq
    simp [Request.isSent, phase_of_phaseOf hi hq]
  refine ho.modify i (fun q => { q with phase := .waiting }) (fun _ => rfl) ?_ ?_ ?_ ?_
  · exact fun q hq _ => ho.right i q hq (hsent q hq)
  · exact fun q hq _ => .inl (hsent q hq)
  · exact fun _ _ _ => rfl
  · exact fun _ _ _ => by simp

theorem Own.complete (ho : Own answers s answered) {i : Nat} {ret : Option KErrno}
    (hi : (s.sentAt i = true ∧ ret = errnoOfStatus (answers i)) ∨ (s.shut = true ∧ s.sentAt i = false)) :
    Own answers (s.complete i ret) answered := by
  refine ho.modify i (fun q => { q with results := q.results ++ [ret] }) (fun _ => rfl) ?_ ?_ ?_ ?_
  · intro q hq hsent r hr
    rcases List.mem_append.mp hr with hold | hnew
    · exact ho.right i q hq hsent r hold
    · rw [List.mem_singleton.mp hnew]
      rcases hi with hown | hshut
      · exact hown.2
      · exact Bool.noConfusion (hsent.symm.trans ((sentAt_of_getElem? hq).symm.trans hshut.2))
  · exact fun _ _ hsent => .inl hsent
  · exact fun _ _ hsent => hsent
  · intro q hq hopen hphase
    rcases hi with hown | hshut
    · rw [sentAt_of_getElem? hq] at hown
      have hreg : q.phase = .registered := hphase
      simp [Request.isSent, hreg] at hown
    · exact Bool.noConfusion (hopen.symm.trans hshut.1)

theorem Own.unregister (ho : Own answers s answered) {i : Nat} (hi : s.phaseOf i = some .failed) :
    Own answers (s.unregister i) answered :=
  ho.retire hi (.inr rfl) (fun _ => rfl) (fun _ => .inr rfl)

theorem findWaiter_eq_none {seq : UInt64} (h : s.findWaiter seq = none) (hseq : seq ≠ 0) {i : Nat}
    (hi : i ∈ s.waiters) : (s.reqs[i]?).map Request.seq ≠ some seq := by
  rw [St.findWaiter, if_neg hseq] at h
  simpa using List.find?_eq_none.mp h i hi

/-- A response that finds no waiter comes on a socket that was shut down. -/
theorem Own.unmatched (ho : Own answers s answered) {seq : UInt64} (hanswered : seq ∉ answered) {i : Nat} {q : Request}
    (hq : s.reqs[i]? = some q) (hsent : q.isSent = true) (hseq : q.seq = seq) (hfind : s.findWaiter seq = none) :
    s.shut = true := by
  subst hseq
  cases hopen : s.shut with
  | true => rfl
  | false =>
    have hmem := ho.awaited hopen i q hq hsent hanswered
    exact absurd (by simp [hq]) (findWaiter_eq_none hfind (ho.pos i q hq) hmem)

theorem Own.frame (ho : Own answers s answered) {i : Nat} {q : Request} (hq : s.reqs[i]? = some q)
    (hsent : q.isSent = true) {j : Nat} (hfind : s.findWaiter q.seq = some j) :
    Own answers { s.removeWaiter j with run := .deliver j (errnoOfStatus (answers i)) } (q.seq :: answered) := by
  obtain ⟨q', hq', hseq⟩ := Option.map_eq_some_iff.mp (findWaiter_eq_some hfind).2
  obtain rfl : j = i := ho.seqs j i q' q hq' hq hseq
  obtain rfl := Option.some.inj (hq'.symm.trans hq)
  have hremoved : Own answers (s.removeWaiter j) (q'.seq :: answered) := by
    apply (ho.answer q'.seq).removeWaiter
    intro q hq
    obtain rfl := Option.some.inj (hq'.symm.trans hq)
    refine ⟨fun hreg => ?_, fun _ => List.mem_cons_self⟩
    simp [Request.isSent, hreg] at hsent
  apply hremoved.setRun _ s.pending (by simp)
  intro k ret hrun
  cases hrun
  exact ⟨(sentAt_of_getElem? hq').trans hsent, rfl⟩

theorem Own.step {s' : St} {l : Act} (ho : Own answers s answered) (hoffered : Offered answers ⟨s, answered⟩ l)
    (hdrained : Drained ⟨s, answered⟩ l) (hstep : Step s l s') :
    Own answers s' (l.answer answered) := by
  have hshut : s.fins ≠ [] → (s.dead || s.sock.isNone) = true := ho.fins
  cases hstep with
  | refused => exact ho
  | register seq => exact ho.addWaiter hoffered.1 hoffered.2
  | send i ok hphase =>
    obtain rfl : ok = true := hoffered
    exact ho.send hphase
  | unregister i hphase hmem =>
    apply (ho.unregister hphase).removeWaiter
    intro q hq
    obtain ⟨q₀, -, rfl⟩ := getElem?_of_modify hq
    simp [Request.isSent]
  | snatch i hphase hmem =>
    have hretired := ho.unregister hphase
    exact { hretired with failing := fun p hp => hretired.failing p (List.mem_of_mem_filter hp) }
  | unlinked i hphase => exact ho.retire hphase (.inr rfl) (fun _ => rfl) (fun _ => .inr rfl)
  | queueWork i hphase => exact (ho.queueWork hphase).setRun s.run true ho.splice (ho.queueWork hphase).deliver
  | start hrun => exact ho.setRun .check false (by simp) (by simp)
  | check hrun =>
    apply ho.setRun _ s.pending
    · split <;> simp
    · split <;> simp
  | unmatched seq status hrun hfind =>
    obtain ⟨hanswered, ⟨q, i⟩, hp, hsent, hseq, -⟩ := hoffered
    have hq := List.mem_zipIdx_iff_getElem?.mp hp
    exact (ho.answer seq).setRun _ s.pending (fun _ _ => ho.unmatched hanswered hq hsent hseq hfind) (by simp)
  | frame seq status j hrun hfind =>
    obtain ⟨-, ⟨q, i⟩, hp, hsent, rfl, rfl⟩ := hoffered
    exact ho.frame (List.mem_zipIdx_iff_getElem?.mp hp) hsent hfind
  | error e hrun => exact ho.setRun _ s.pending (fun _ _ => hoffered) (by simp)
  | deliver i ret hrun =>
    exact (ho.complete (.inl (ho.deliver i ret hrun))).setRun .check s.pending (by simp) (by simp)
  | splice e hrun => exact (ho.spliceWaiters (ho.splice e hrun) e).setRun .idle s.pending (by simp) (by simp)
  | completeFailed i e hmem =>
    have hcompleted : Own answers (s.complete i (some e)) answered := ho.complete (.inr (ho.failing (i, e) hmem))
    exact { hcompleted with failing := fun p hp => hcompleted.failing p (List.mem_of_mem_erase hp) }
  | finalize ret => exact ho.setShut rfl hdrained
  | finalizeNone ret hsock =>
    have hnow : s.shut = true := by
      rcases hsock with h | h
      · simp [St.shut, Option.isSome_eq_false_iff.mp h]
      · simp [St.shut, h]
    exact ho.setShut hnow (ho.quiet hnow)
  | close k sock ret hfin hsock => exact ho.setShut rfl (fun _ hmem => absurd hmem List.not_mem_nil)
  | leave k sock ret hfin =>
    have hnow := hshut (List.ne_nil_of_mem (List.mem_of_getElem? hfin))
    exact ho.setShut hnow (ho.quiet hnow)
  | failAll k ret hfin =>
    have hnow := hshut (List.ne_nil_of_mem (List.mem_of_getElem? hfin))
    exact (ho.spliceWaiters hnow ret).setShut hnow (fun _ hmem => absurd hmem List.not_mem_nil)
  | connect sock => exact absurd hoffered id

end Own

theorem own_inductive (answers : Nat → UInt32) :
    ((conn answers).restrict Drained).Inductive fun c => Own answers c.mux c.answered := by
  constructor
  · intro c hc
    obtain rfl : c = ⟨{ sock := some 0 }, []⟩ := hc
    constructor <;> simp
  · intro c l c' ho ⟨hdrained, hstep⟩
    obtain ⟨hoffered, hmap⟩ := Option.ite_none_right_eq_some.mp hstep
    obtain ⟨s', hs', rfl⟩ := Option.map_eq_some_iff.mp hmap
    exact ho.step hoffered hdrained (step_cases hs')

/-- As long as a socket is finalised only when no response is awaited on it,
each request that was sent gets the status of its own response. -/
theorem own_status {answers : Nat → UInt32} {c : Conn} (h : ((conn answers).restrict Drained).Reachable c)
    {i : Nat} {q : Request}
    (hq : c.mux.reqs[i]? = some q) (hsent : q.isSent = true) : ∀ ret ∈ q.results, ret = errnoOfStatus (answers i) :=
  ((own_inductive answers).reachable h).right i q hq hsent

/-- The OSD is not the leader of the first request's PG. -/
def firstNotLeader : Nat → UInt32
  | 0 => 5
  | _ => 0

theorem both_answered_own : ∃ c, ((conn firstNotLeader).restrict Drained).Reachable c ∧ c.mux.dead = true ∧
    c.mux.reqs = [⟨1, .waiting, [some .enolink], false⟩, ⟨2, .sent, [none], false⟩] ∧
    ∀ ret ∈ [(none : Option KErrno)], ret = errnoOfStatus (firstNotLeader 1) := by
  obtain ⟨c, hreach, hdead, hreqs⟩ : ∃ c, ((conn firstNotLeader).restrict Drained).Reachable c ∧
      c.mux.dead = true ∧ c.mux.reqs = [⟨1, .waiting, [some .enolink], false⟩, ⟨2, .sent, [none], false⟩] :=
    Lts.Reachable.of_follow (fun _ _ _ h => h) rfl [.register 1, .send 0 true, .register 2, .send 1 true,
      .queueWork 0, .start, .check, .frame 2 0, .deliver, .check, .frame 1 5, .deliver,
      .finalize .enolink] (by decide +kernel)
  exact ⟨c, hreach, hdead, hreqs, own_status hreach (i := 1) (by rw [hreqs]; rfl) rfl⟩

/-- The first request is answered with `status_not_leader` and shuts the
socket down while the second, which the OSD answers with `status_ok`, waits:
the second fails. -/
theorem neighbour_failed : ∃ c, (conn firstNotLeader).Reachable c ∧
    (c.mux.reqs[1]?).map Request.results = some [some .eio] ∧ errnoOfStatus (firstNotLeader 1) = none := by
  obtain ⟨c, hreach, hend⟩ : ∃ c, ((conn firstNotLeader).restrict fun _ _ => True).Reachable c ∧
      (c.mux.reqs[1]?).map Request.results = some [some .eio] :=
    Lts.Reachable.of_follow (fun _ _ _ h => h) rfl [.register 1, .send 0 true, .register 2, .send 1 true, .queueWork 0,
      .queueWork 1, .start, .check, .frame 1 5, .deliver, .check, .finalize .enolink, .error .eio, .splice,
      .completeFailed 1 .eio] (by decide +kernel)
  exact ⟨c, hreach.of_restrict, hend, by decide⟩

end Fastblock.L5.Mux
