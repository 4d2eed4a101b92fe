import Fastblock.Core.Lts
import Fastblock.L5Raw.Connection

/-!
# The listener of the raw server

`osd_raw_tcp_server::run_listener` (src/osd/raw_tcp_server.cc:1400-1510)
is one thread for all connections of a shard. For each it calls
`service_connection_io` (1566-1605), which reads requests until the socket
would block, and `service_connection_write` (1607-1672), which sends the
responses that are ready. The threads of the OSD complete requests
meanwhile.

Reading a request waits while 128 are pending
(`enqueue_inflight_response`, 517-551), and only
`service_connection_write` takes requests out of `pending`. It runs on the
same thread, so the wait never ends.

**Assumption.** `SmallBursts`: a round that reads finds at most as many
requests as can still be pending.

**Results.**
* `inv_reachable`: an open connection keeps `Conn.Inv`, and a response
  that is ready wakes the listener.
* `listener_returns`: with small bursts the listener never waits, and
  comes out of `service_connection_io`.
* `long_burst_blocks`: 129 requests at once, and it waits until the server
  is stopped.
-/
namespace Fastblock.L5.Raw

open Fastblock.Core

/-! ## The thread -/

/-- Where the listener is, as far as this connection goes. In
`service_connection_io` it will still find `left` complete requests in the
socket, and `write` says whether it calls `service_connection_write`
afterwards. -/
inductive Pc
  | polling
  | reading (left : Nat) (write : Bool)
  | waiting (m : Header × Bytes) (left : Nat) (write : Bool)
  | writing
  deriving DecidableEq, Repr

def Pc.behindIo (write : Bool) : Pc := if write then .writing else .polling

/-- What `poll` reports for the connection. -/
structure Revents where
  err : Bool := false
  inp : Bool := false
  out : Bool := false
  deriving DecidableEq, Repr

structure Listener where
  conn : Conn := {}
  pc : Pc := .polling
  deriving DecidableEq, Repr

inductive Label
  /-- `poll` returns; a burst of requests is there or comes while they are
  read -/
  | poll (rev : Revents) (burst : Nat)
  | receive (m : Header × Bytes) (leader : LeaderEndpoint)
  | receiveNone
  | receiveFail
  /-- the wait in `enqueue_inflight_response` ends -/
  | resume (leader : LeaderEndpoint)
  | next
  | send (n : Nat)
  | sendAgain
  | sendFail
  | sendDone
  /-- a thread of the OSD runs the closure of request `r` -/
  | callback (r : Nat) (reply : ReadReply)
  /-- the server is stopped -/
  | stop
  deriving DecidableEq, Repr

namespace Listener

variable (s : Listener)

/-- Behind the wait. -/
def enter (m : Header × Bytes) (leader : LeaderEndpoint) (left : Nat) (write : Bool) : Listener :=
  match s.conn.accept m leader with
  | none => { conn := s.conn.closeConnection, pc := .behindIo write }
  | some conn => { conn, pc := .reading left write }

/-- One round of the loop of `run_listener`, up to the first request; a
connection that is done is no longer polled. -/
def poll (rev : Revents) (burst : Nat) : Listener :=
  let write := rev.out || s.conn.wake
  let conn := { s.conn with wake := false }
  if s.conn.done then s
  else if rev.err then { conn := conn.closeConnection, pc := .polling }
  else if rev.inp then { conn, pc := .reading burst write }
  else { conn, pc := .behindIo write }

def step? : Label → Option Listener
  | .poll rev burst =>
    -- POLLOUT is asked for only while a response is being sent
    if s.pc = .polling ∧ (rev.out = true → s.conn.sending.isSome) then some (s.poll rev burst) else none
  | .receive m leader =>
    match s.pc with
    | .reading (left + 1) write =>
      if m.1.seq ≠ 0 ∧ ¬s.conn.CanEnqueue then some { s with pc := .waiting m left write }
      else some (s.enter m leader left write)
    | _ => none
  | .receiveNone =>
    match s.pc with
    | .reading 0 write => some { s with pc := .behindIo write }
    | _ => none
  | .receiveFail =>
    match s.pc with
    | .reading _ write => some { conn := s.conn.closeConnection, pc := .behindIo write }
    | _ => none
  | .resume leader =>
    match s.pc with
    | .waiting m left write => if s.conn.CanEnqueue then some (s.enter m leader left write) else none
    | _ => none
  | .next =>
    if s.pc = .writing then
      if s.conn.stopping then some { s with pc := .polling }
      else if s.conn.sending.isSome then none
      else
        match s.conn.takeReady with
        | none => some { s with pc := .polling }
        | some conn => some { s with conn }
    else none
  | .send n =>
    if s.pc = .writing ∧ s.conn.sending.isSome ∧ 0 < n ∧ n ≤ s.conn.sendFrame.length - s.conn.sendBytes then
      some { s with conn := { s.conn with
        wire := s.conn.wire ++ (s.conn.sendFrame.drop s.conn.sendBytes).take n
        sendBytes := s.conn.sendBytes + n } }
    else none
  | .sendAgain =>
    if s.pc = .writing ∧ s.conn.sending.isSome ∧ s.conn.sendBytes < s.conn.sendFrame.length then
      some { s with pc := .polling }
    else none
  | .sendFail =>
    if s.pc = .writing ∧ s.conn.sending.isSome ∧ s.conn.sendBytes < s.conn.sendFrame.length then
      some { conn := s.conn.closeConnection, pc := .polling }
    else none
  | .sendDone =>
    match s.conn.sending with
    | some r =>
      if s.pc = .writing ∧ s.conn.sendFrame.length ≤ s.conn.sendBytes then
        some { s with conn := { s.conn.resetConnectionSend with sent := s.conn.sent ++ [r] } }
      else none
    | none => none
  | .callback r reply =>
    match s.conn.inflights[r]? with
    | none => none
    | some i =>
      some { s with conn := s.conn.completeInflightResponse r (closure i.header reply).1 (closure i.header reply).2 }
  | .stop => some { s with conn := s.conn.stopConnection }

/-- The steps of `step?`, branch by branch. -/
inductive Step : Label → Listener → Prop
  | poll (rev : Revents) (burst : Nat) : s.pc = .polling → Step (.poll rev burst) (s.poll rev burst)
  | wait (m : Header × Bytes) (leader : LeaderEndpoint) (left : Nat) (write : Bool) :
      s.pc = .reading (left + 1) write →
      ¬s.conn.CanEnqueue → Step (.receive m leader) { s with pc := .waiting m left write }
  | receive (m : Header × Bytes) (leader : LeaderEndpoint) (left : Nat) (write : Bool) :
      s.pc = .reading (left + 1) write → Step (.receive m leader) (s.enter m leader left write)
  | receiveNone (write : Bool) : s.pc = .reading 0 write → Step .receiveNone { s with pc := .behindIo write }
  | receiveFail (left : Nat) (write : Bool) : s.pc = .reading left write →
      Step .receiveFail { conn := s.conn.closeConnection, pc := .behindIo write }
  | resume (m : Header × Bytes) (leader : LeaderEndpoint) (left : Nat) (write : Bool) : s.pc = .waiting m left write →
      s.conn.CanEnqueue → Step (.resume leader) (s.enter m leader left write)
  | stopped : s.pc = .writing → s.conn.stopping = true → Step .next { s with pc := .polling }
  | idle : s.pc = .writing → s.conn.stopping = false → s.conn.takeReady = none → Step .next { s with pc := .polling }
  | take (conn : Conn) : s.pc = .writing → s.conn.stopping = false → s.conn.sending = none →
      s.conn.takeReady = some conn → Step .next { s with conn }
  | send (n : Nat) : s.pc = .writing → s.conn.sending.isSome → n ≤ s.conn.sendFrame.length - s.conn.sendBytes →
      Step (.send n) { s with conn := { s.conn with
        wire := s.conn.wire ++ (s.conn.sendFrame.drop s.conn.sendBytes).take n
        sendBytes := s.conn.sendBytes + n } }
  | sendAgain : s.pc = .writing → s.conn.sending.isSome → Step .sendAgain { s with pc := .polling }
  | sendFail : s.pc = .writing → Step .sendFail { conn := s.conn.closeConnection, pc := .polling }
  | sendDone (r : Nat) : s.pc = .writing → s.conn.sending = some r → s.conn.sendFrame.length ≤ s.conn.sendBytes →
      Step .sendDone { s with conn := { s.conn.resetConnectionSend with sent := s.conn.sent ++ [r] } }
  | callback (r : Nat) (reply : ReadReply) (i : Inflight) : s.conn.inflights[r]? = some i → Step (.callback r reply)
      { s with conn := s.conn.completeInflightResponse r (closure i.header reply).1 (closure i.header reply).2 }
  | stop : Step .stop { s with conn := s.conn.stopConnection }

theorem step_cases {s t : Listener} {l : Label} (hs : s.step? l = some t) : s.Step l t := by
  cases l <;> simp only [step?, Option.ite_none_right_eq_some, Option.some.injEq] at hs
  case poll rev burst =>
    obtain ⟨⟨hpc, -⟩, rfl⟩ := hs
    exact .poll rev burst hpc
  case receive m leader =>
    split at hs
    · next left write hpc =>
      split at hs <;> obtain rfl := Option.some.inj hs
      · next hwait => exact .wait m leader left write hpc hwait.2
      · exact .receive m leader left write hpc
    · cases hs
  case receiveNone =>
    split at hs
    · next write hpc =>
      obtain rfl := Option.some.inj hs
      exact .receiveNone write hpc
    · cases hs
  case receiveFail =>
    split at hs
    · next left write hpc =>
      obtain rfl := Option.some.inj hs
      exact .receiveFail left write hpc
    · cases hs
  case resume leader =>
    split at hs
    · next m left write hpc =>
      obtain ⟨hcan, hs⟩ := Option.ite_none_right_eq_some.mp hs
      obtain rfl := Option.some.inj hs
      exact .resume m leader left write hpc hcan
    · cases hs
  case next =>
    obtain ⟨hpc, hs⟩ := hs
    split at hs
    · next hstop =>
      obtain rfl := Option.some.inj hs
      exact .stopped hpc hstop
    · next hstop =>
      obtain ⟨hsend, hs⟩ := Option.ite_none_left_eq_some.mp hs
      cases htake : s.conn.takeReady with
      | none =>
        rw [htake] at hs
        obtain rfl := Option.some.inj hs
        exact .idle hpc (by simpa using hstop) htake
      | some conn =>
        rw [htake] at hs
        obtain rfl := Option.some.inj hs
        exact .take conn hpc (by simpa using hstop) (by simpa using hsend) htake
  case send n =>
    obtain ⟨⟨hpc, hsend, -, hle⟩, rfl⟩ := hs
    exact .send n hpc hsend hle
  case sendAgain =>
    obtain ⟨⟨hpc, hsend, -⟩, rfl⟩ := hs
    exact .sendAgain hpc hsend
  case sendFail =>
    obtain ⟨⟨hpc, -⟩, rfl⟩ := hs
    exact .sendFail hpc
  case sendDone =>
    split at hs
    · next r hsend =>
      obtain ⟨⟨hpc, hle⟩, hs⟩ := Option.ite_none_right_eq_some.mp hs
      obtain rfl := Option.some.inj hs
      exact .sendDone r hpc hsend hle
    · cases hs
  case callback r reply =>
    split at hs
    · cases hs
    · next i hi =>
      obtain rfl := Option.some.inj hs
      exact .callback r reply i hi
  case stop =>
    subst hs
    exact .stop

end Listener

def listener : Lts Listener Label where
  init := (· = {})
  step := fun s l t => s.step? l = some t

/-! ## Steps of the listener -/

namespace Listener

/-- A response that is ready wakes the listener, unless the listener is on
the way to it. -/
def Woken (s : Listener) : Prop :=
  s.conn.ready ≠ [] →
    match s.pc with
    | .polling => s.conn.wake = true ∨ s.conn.sending.isSome
    | .reading _ write | .waiting _ _ write => write = true ∨ s.conn.wake = true ∨ s.conn.sending.isSome
    | .writing => True

/-- What holds of a connection that is open. -/
structure Inv (s : Listener) : Prop where
  conn : s.conn.Inv
  woken : s.Woken

variable {s t : Listener}

theorem woken_completes {c : Conn} (h : s.Woken) (hc : Conn.Completes s.conn c) : Woken { s with conn := c } := by
  intro hready
  rcases hc.ready with ⟨hsame, hwake⟩ | hwake
  · have := h (hsame ▸ hready)
    revert this
    cases s.pc <;> simp [hwake, hc.sending]
  · cases s.pc <;> simp [hwake]

theorem Inv.empty : Inv {} := ⟨.empty, fun h => absurd rfl h⟩

/-- A connection that is closed is not open. -/
theorem not_open_close {c : Conn} {P : Prop} (h : c.closeConnection.stopping = false) : P := by cases h

theorem inv_behindIo {n : Nat} {write : Bool} (h : s.Inv) (hpc : s.pc = .reading n write) :
    Inv { s with pc := .behindIo write } := by
  refine ⟨h.conn, ?_⟩
  intro hready
  have hw := h.woken hready
  rw [hpc] at hw
  cases write with
  | true => trivial
  | false => simpa [Pc.behindIo] using hw

/-- Behind the wait: the request is accepted, or the connection is
closed. -/
theorem inv_enter {m : Header × Bytes} {leader : LeaderEndpoint} {left : Nat} {write : Bool}
    (h : s.conn.stopping = false → s.Inv) (hpc : s.pc = .reading (left + 1) write ∨ s.pc = .waiting m left write)
    (ht : (s.enter m leader left write).conn.stopping = false) : (s.enter m leader left write).Inv := by
  unfold enter at ht ⊢
  cases ha : s.conn.accept m leader with
  | none =>
    rw [ha] at ht
    exact not_open_close ht
  | some c =>
    obtain ⟨c₁, he, hopen, hopen', -, hsend, hready₁, hwake₁, -, -, rfl⟩ := Conn.accept_cases ha
    have hs := h hopen'
    refine ⟨hs.conn.accept ha, ?_⟩
    have hw : Woken { conn := c₁, pc := .reading left write } := by
      intro hready
      rw [hready₁] at hready
      have := hs.woken hready
      rcases hpc with hpc | hpc <;> · rw [hpc] at this; simpa [hwake₁, hsend] using this
    exact woken_completes hw (Conn.dispatchRequest_completes ..)

theorem inv_poll {rev : Revents} {burst : Nat} (h : s.conn.stopping = false → s.Inv) (hpc : s.pc = .polling)
    (ht : (s.poll rev burst).conn.stopping = false) : (s.poll rev burst).Inv := by
  unfold poll at ht ⊢
  dsimp only at ht ⊢
  split at ht
  · next hdone =>
    rw [if_pos hdone]
    exact h ht
  next hdone =>
  rw [if_neg hdone]
  split at ht
  · exact not_open_close ht
  next herr =>
  rw [if_neg herr]
  -- the round goes on to `service_connection_write` if it was woken
  have hopen : s.conn.stopping = false := by split at ht <;> exact ht
  have hs := h hopen
  have hw : s.conn.ready ≠ [] → (rev.out || s.conn.wake) = true ∨ s.conn.sending.isSome := by
    intro hready
    have := hs.woken hready
    rw [hpc] at this
    rcases this with hwake | hsend
    · exact .inl (by rw [hwake, Bool.or_true])
    · exact .inr hsend
  split
  · exact ⟨{ hs.conn with }, fun hready => (hw hready).imp_right .inr⟩
  · refine ⟨{ hs.conn with }, fun hready => ?_⟩
    cases hwr : (rev.out || s.conn.wake) with
    | true => trivial
    | false =>
      have := hw hready
      rw [hwr] at this
      simpa [Pc.behindIo] using this

theorem inv_step {l : Label} (h : s.conn.stopping = false → s.Inv) (hs : s.step? l = some t)
    (ht : t.conn.stopping = false) : t.Inv := by
  cases step_cases hs with
  | poll rev burst hpc => exact inv_poll h hpc ht
  | wait m leader left write hpc =>
    have hi := h ht
    refine ⟨hi.conn, fun hready => ?_⟩
    have hwoken := hi.woken hready
    rw [hpc] at hwoken
    exact hwoken
  | receive m leader left write hpc => exact inv_enter h (.inl hpc) ht
  | receiveNone write hpc => exact inv_behindIo (h ht) hpc
  | receiveFail => exact not_open_close ht
  | resume m leader left write hpc => exact inv_enter h (.inr hpc) ht
  | stopped _ hstop => exact absurd (hstop.symm.trans ht) (by decide)
  | idle _ _ htake => exact ⟨(h ht).conn, fun hready => absurd (Conn.takeReady_eq_none.mp htake) hready⟩
  | take conn hpc hopen hsend htake =>
    refine ⟨((h hopen).conn.takeReady hsend htake).1, fun _ => ?_⟩
    rw [hpc]
    trivial
  | send n hpc hsend hle =>
    refine ⟨(h ht).conn.send hsend hle, fun _ => ?_⟩
    rw [hpc]
    trivial
  | sendAgain _ hsend => exact ⟨(h ht).conn, fun _ => .inr hsend⟩
  | sendFail => exact not_open_close ht
  | sendDone r hpc hsend hle =>
    refine ⟨(h ht).conn.sendDone hsend hle, fun _ => ?_⟩
    rw [hpc]
    trivial
  | callback r reply i hi =>
    have hc := Conn.completeInflightResponse_completes s.conn r (closure i.header reply).1 (closure i.header reply).2
    have hopen := hc.stopping.symm.trans ht
    have hlt := (List.getElem?_eq_some_iff.mp hi).1
    exact ⟨(h hopen).conn.completeInflightResponse hopen hlt _ (closure_length _ _),
      woken_completes (h hopen).woken hc⟩
  | stop => cases ht

theorem inv_reachable (h : listener.Reachable s) (hopen : s.conn.stopping = false) : s.Inv := by
  have hI : listener.Inductive fun s => s.conn.stopping = false → s.Inv := by
    refine ⟨?_, ?_⟩
    · intro s hs _
      rw [show s = {} from hs]
      exact Inv.empty
    · intro s l t hi hs ht
      exact inv_step hi hs ht
  exact hI.reachable h hopen

/-! ## Bursts -/

/-- A round that reads starts with so few pending requests that all it finds
in the socket can be accepted. -/
def SmallBursts (s : Listener) : Label → Prop
  | .poll rev burst => rev.inp = true → s.conn.pending.length + burst ≤ rawMaxInflightRequests
  | _ => True

instance (s : Listener) (l : Label) : Decidable (SmallBursts s l) := by
  cases l <;> unfold SmallBursts <;> infer_instance

/-- The listener is out of `service_connection_io`. -/
def Outside (s : Listener) : Prop := s.pc = .polling ∨ s.pc = .writing

theorem outside_behindIo (write : Bool) : Pc.behindIo write = .polling ∨ Pc.behindIo write = .writing := by
  cases write
  · exact .inl rfl
  · exact .inr rfl

/-- There is room for the requests that are still to be read. -/
def Room (s : Listener) : Prop :=
  s.Outside ∨ ∃ left write, s.pc = .reading left write ∧ s.conn.pending.length + left ≤ rawMaxInflightRequests

/-- With room for it, a request is accepted, or it closes the connection. -/
theorem enter_cases {m : Header × Bytes} {leader : LeaderEndpoint} {left : Nat} {write : Bool} :
    (s.enter m leader left write).Outside ∨
      ((s.enter m leader left write).pc = .reading left write ∧
        (s.enter m leader left write).conn.pending.length = s.conn.pending.length + 1) := by
  unfold enter
  cases ha : s.conn.accept m leader with
  | none => exact .inl (outside_behindIo write)
  | some c =>
    obtain ⟨c₁, -, -, -, hlen, -, -, -, -, -, rfl⟩ := Conn.accept_cases ha
    refine .inr ⟨rfl, ?_⟩
    dsimp only
    rw [(Conn.dispatchRequest_completes ..).pending, hlen]

theorem receive_of_room {m : Header × Bytes} {leader : LeaderEndpoint} {left : Nat} {write : Bool}
    (hpc : s.pc = .reading (left + 1) write) (hroom : s.conn.pending.length + (left + 1) ≤ rawMaxInflightRequests) :
    s.step? (.receive m leader) = some (s.enter m leader left write) := by
  have hcan : s.conn.CanEnqueue := .inr (by omega)
  simp only [step?, hpc]
  rw [if_neg fun h => h.2 hcan]

/-- A step that leaves the listener where it is and adds nothing to
`pending`. -/
theorem Room.same (h : s.Room) (hpc : t.pc = s.pc) (hlen : t.conn.pending.length ≤ s.conn.pending.length) :
    t.Room := by
  rcases h with hout | ⟨left, write, hr, hroom⟩
  · exact .inl (hout.imp hpc.trans hpc.trans)
  · exact .inr ⟨left, write, hpc.trans hr, by omega⟩

theorem room_poll {rev : Revents} {burst : Nat} (h : s.Room) (hG : SmallBursts s (.poll rev burst)) :
    (s.poll rev burst).Room := by
  unfold poll
  dsimp only
  split
  · exact h
  · split
    · exact .inl (.inl rfl)
    · split
      · next hin => exact .inr ⟨burst, _, rfl, hG hin⟩
      · exact .inl (outside_behindIo _)

theorem Room.reading (h : s.Room) {left : Nat} {write : Bool} (hpc : s.pc = .reading left write) :
    s.conn.pending.length + left ≤ rawMaxInflightRequests := by
  rcases h with (hout | hout) | ⟨left', write', hr, hroom⟩
  · exact absurd (hpc.symm.trans hout) (by simp)
  · exact absurd (hpc.symm.trans hout) (by simp)
  · obtain ⟨rfl, rfl⟩ : left = left' ∧ write = write' := by simpa using hpc.symm.trans hr
    exact hroom

theorem Room.not_waiting (h : s.Room) (m : Header × Bytes) (left : Nat) (write : Bool) :
    s.pc ≠ .waiting m left write := by
  intro hpc
  rcases h with (hout | hout) | ⟨left', write', hr, -⟩
  · exact absurd (hpc.symm.trans hout) (by simp)
  · exact absurd (hpc.symm.trans hout) (by simp)
  · exact absurd (hpc.symm.trans hr) (by simp)

theorem room_step {l : Label} (h : s.Room) (hG : SmallBursts s l) (hs : s.step? l = some t) : t.Room := by
  cases step_cases hs with
  | poll => exact room_poll h hG
  | wait m leader left write hpc hcan =>
    have hroom := h.reading hpc
    exact absurd (.inr (by omega)) hcan
  | receive m leader left write hpc =>
    have hroom := h.reading hpc
    rcases @enter_cases s m leader left write with hout | ⟨hpc', hlen⟩
    · exact .inl hout
    · exact .inr ⟨left, write, hpc', by omega⟩
  | receiveNone => exact .inl (outside_behindIo _)
  | receiveFail => exact .inl (outside_behindIo _)
  | resume m leader left write hpc => exact absurd hpc (h.not_waiting m left write)
  | stopped => exact .inl (.inl rfl)
  | idle => exact .inl (.inl rfl)
  | take conn hpc => exact .inl (.inr hpc)
  | send => exact h.same rfl (Nat.le_refl _)
  | sendAgain => exact .inl (.inl rfl)
  | sendFail => exact .inl (.inl rfl)
  | sendDone => exact h.same rfl (Nat.le_refl _)
  | callback =>
    exact h.same rfl (Nat.le_of_eq (congrArg List.length (Conn.completeInflightResponse_completes ..).pending))
  | stop => exact h.same rfl (Nat.zero_le _)

theorem room_reachable (h : (listener.restrict SmallBursts).Reachable s) : s.Room := by
  have hI : (listener.restrict SmallBursts).Inductive Room := by
    refine ⟨?_, ?_⟩
    · intro s hs
      rw [show s = {} from hs]
      exact .inl (.inl rfl)
    · intro s l t hi hs
      exact room_step hi hs.1 hs.2
  exact hI.reachable h

/-- The requests of a round, whatever they are, bring the listener out of
`service_connection_io`. -/
theorem reads_out {left : Nat} {write : Bool} (hpc : s.pc = .reading left write)
    (hroom : s.conn.pending.length + left ≤ rawMaxInflightRequests) (ms : List ((Header × Bytes) × LeaderEndpoint))
    (hms : ms.length = left) :
    ∃ ls t, ls.Sublist (ms.map (fun m => Label.receive m.1 m.2) ++ [.receiveNone]) ∧
      listener.Run s ls t ∧ t.Outside := by
  induction ms generalizing s left with
  | nil =>
    obtain rfl : left = 0 := hms.symm
    have hstep : s.step? .receiveNone = some { s with pc := .behindIo write } := by simp only [step?, hpc]
    exact ⟨[.receiveNone], _, List.Sublist.refl _, (Lts.Run.nil s).snoc hstep, outside_behindIo write⟩
  | cons m ms ih =>
    obtain rfl : left = ms.length + 1 := hms.symm
    have hstep := @receive_of_room s m.1 m.2 _ _ hpc hroom
    rcases @enter_cases s m.1 m.2 ms.length write with hout | ⟨hpc', hlen⟩
    · refine ⟨[.receive m.1 m.2], _, ?_, (Lts.Run.nil s).snoc hstep, hout⟩
      exact List.Sublist.cons_cons _ (List.nil_sublist _)
    · obtain ⟨ls, t, hls, hrun, hout⟩ := ih hpc' (by omega) rfl
      exact ⟨.receive m.1 m.2 :: ls, t, hls.cons_cons _, .cons hstep hrun, hout⟩

/-! ## Longer bursts -/

/-- The listener waits for room that nobody makes. -/
structure Stuck (s : Listener) : Prop where
  waiting : ∃ m left write, s.pc = .waiting m left write
  stopping : s.conn.stopping = false
  full : rawMaxInflightRequests ≤ s.conn.pending.length

theorem stuck_step {l : Label} (h : s.Stuck) (hl : l ≠ .stop) (hs : s.step? l = some t) :
    t.Stuck ∧ t.conn.sent = s.conn.sent ∧ t.conn.wire = s.conn.wire := by
  obtain ⟨⟨m, left, write, hpc⟩, hopen, hfull⟩ := h
  have hcan : ¬s.conn.CanEnqueue := by
    rintro (h | h)
    · exact absurd (hopen.symm.trans h) (by decide)
    · omega
  cases step_cases hs with
  | callback r reply i =>
    have hc := Conn.completeInflightResponse_completes s.conn r (closure i.header reply).1 (closure i.header reply).2
    exact ⟨⟨⟨m, left, write, hpc⟩, hc.stopping.trans hopen, hc.pending ▸ hfull⟩, hc.sent, hc.wire⟩
  | stop => exact absurd rfl hl
  | resume _ _ _ _ _ hroom => exact absurd hroom hcan
  | poll _ _ hp => simp [hpc] at hp
  | wait _ _ _ _ hp => simp [hpc] at hp
  | receive _ _ _ _ hp => simp [hpc] at hp
  | receiveNone _ hp => simp [hpc] at hp
  | receiveFail _ _ hp => simp [hpc] at hp
  | stopped hp => simp [hpc] at hp
  | idle hp => simp [hpc] at hp
  | take _ hp => simp [hpc] at hp
  | send _ hp => simp [hpc] at hp
  | sendAgain hp => simp [hpc] at hp
  | sendFail hp => simp [hpc] at hp
  | sendDone _ hp => simp [hpc] at hp

/-- Only stopping the server ends it. -/
theorem stuck_run {ls : List Label} (h : s.Stuck) (hls : .stop ∉ ls) (hr : listener.Run s ls t) :
    t.Stuck ∧ t.conn.sent = s.conn.sent ∧ t.conn.wire = s.conn.wire := by
  induction hr with
  | nil => exact ⟨h, rfl, rfl⟩
  | snoc _ hs ih =>
    rw [List.mem_append, List.mem_singleton, not_or] at hls
    obtain ⟨h', hsent, hwire⟩ := ih hls.1
    obtain ⟨h'', hsent', hwire'⟩ := stuck_step h' (fun he => hls.2 he.symm) hs
    exact ⟨h'', hsent'.trans hsent, hwire'.trans hwire⟩

/-- A request with a new sequence number is accepted while there is room. -/
theorem enter_new {m : Header × Bytes} {leader : LeaderEndpoint} {left : Nat} {write : Bool}
    (hopen : s.conn.stopping = false) (hseq : m.1.seq ≠ 0) (hnew : m.1.seq ∉ s.conn.inflightBySeq.map Prod.fst) :
    (s.enter m leader left write).pc = .reading left write ∧ (s.enter m leader left write).conn.stopping = false ∧
      (s.enter m leader left write).conn.pending.length = s.conn.pending.length + 1 ∧
      (s.enter m leader left write).conn.sent = s.conn.sent ∧ (s.enter m leader left write).conn.wire = s.conn.wire ∧
      (s.enter m leader left write).conn.inflights.length = s.conn.inflights.length + 1 ∧
      (s.enter m leader left write).conn.inflightBySeq.map Prod.fst =
        s.conn.inflightBySeq.map Prod.fst ++ [m.1.seq] := by
  have he : s.conn.enqueueInflightResponse m.1 = some { s.conn with
      inflights := s.conn.inflights ++ [{ header := m.1 }]
      pending := s.conn.pending ++ [s.conn.inflights.length]
      inflightBySeq := s.conn.inflightBySeq ++ [(m.1.seq, s.conn.inflights.length)] } := by
    rw [Conn.enqueueInflightResponse, if_neg]
    rintro (h | h | h)
    · exact hseq h
    · exact absurd (hopen.symm.trans h) (by decide)
    · exact hnew h
  unfold enter Conn.accept
  rw [he]
  have hc := Conn.dispatchRequest_completes { s.conn with
      inflights := s.conn.inflights ++ [{ header := m.1 }]
      pending := s.conn.pending ++ [s.conn.inflights.length]
      inflightBySeq := s.conn.inflightBySeq ++ [(m.1.seq, s.conn.inflights.length)] } s.conn.inflights.length m leader
  dsimp only [Option.map_some]
  exact ⟨rfl, hc.stopping.trans hopen, by rw [hc.pending]; simp, hc.sent, hc.wire, by rw [hc.length]; simp,
    by rw [hc.bySeq]; simp⟩

/-- A round that finds more requests than can be pending gets stuck, if the
requests are numbered as they should be. -/
theorem burst_stuck {left : Nat} {write : Bool} (ms : List ((Header × Bytes) × LeaderEndpoint))
    (hpc : s.pc = .reading left write) (hopen : s.conn.stopping = false) (hms : ms.length = left)
    (hle : s.conn.pending.length ≤ rawMaxInflightRequests)
    (hmore : rawMaxInflightRequests < s.conn.pending.length + left) (hzero : ∀ m ∈ ms, m.1.1.seq ≠ 0)
    (hnodup : (s.conn.inflightBySeq.map Prod.fst ++ ms.map fun m => m.1.1.seq).Nodup) :
    ∃ ls t, listener.Run s ls t ∧ t.Stuck ∧ t.conn.sent = s.conn.sent ∧ t.conn.wire = s.conn.wire ∧
      s.conn.inflights.length ≤ t.conn.inflights.length := by
  induction ms generalizing s left with
  | nil =>
    obtain rfl : left = 0 := hms.symm
    omega
  | cons m ms ih =>
    obtain rfl : left = ms.length + 1 := hms.symm
    have hseq := hzero m List.mem_cons_self
    by_cases hfull : s.conn.pending.length < rawMaxInflightRequests
    · have hnew : m.1.1.seq ∉ s.conn.inflightBySeq.map Prod.fst := fun hm =>
        (List.nodup_append.mp hnodup).2.2 _ hm _ List.mem_cons_self rfl
      have hstep : s.step? (.receive m.1 m.2) = some (s.enter m.1 m.2 ms.length write) := by
        simp only [step?, hpc]
        exact if_neg fun h => h.2 (.inr hfull)
      obtain ⟨hpc', hopen', hlen, hsent, hwire, hinf, hby⟩ :=
        @enter_new s m.1 m.2 ms.length write hopen hseq hnew
      obtain ⟨ls, t, hrun, hstuck, hsent', hwire', hinf'⟩ := ih hpc' hopen' rfl (by omega) (by omega)
        (fun k hk => hzero k (List.mem_cons_of_mem _ hk)) (by rw [hby]; simpa using hnodup)
      exact ⟨_, t, .cons hstep hrun, hstuck, hsent'.trans hsent, hwire'.trans hwire, by omega⟩
    · -- 128 are pending, and the thread that would send them waits
      have hcan : ¬s.conn.CanEnqueue := by
        rintro (h | h)
        · exact absurd (hopen.symm.trans h) (by decide)
        · exact hfull h
      have hstep : s.step? (.receive m.1 m.2) = some { s with pc := .waiting m.1 ms.length write } := by
        simp only [step?, hpc]
        exact if_pos ⟨hseq, hcan⟩
      exact ⟨_, _, (Lts.Run.nil s).snoc hstep, ⟨⟨_, _, _, rfl⟩, hopen, Nat.not_lt.mp hfull⟩, rfl, rfl, Nat.le_refl _⟩

end Listener

open Listener

/-- In every run in which each round that reads finds at most as many
requests as can still be pending, the listener never waits in
`enqueue_inflight_response`, and whatever the requests of a round are, it
returns from `service_connection_io`. -/
theorem listener_returns {s : Listener} (h : (listener.restrict SmallBursts).Reachable s) :
    (∀ m left write, s.pc ≠ .waiting m left write) ∧
      ∀ left write, s.pc = .reading left write → ∀ ms : List ((Header × Bytes) × LeaderEndpoint), ms.length = left →
        ∃ ls t, ls.Sublist (ms.map (fun m => Label.receive m.1 m.2) ++ [.receiveNone]) ∧ listener.Run s ls t ∧
          t.Outside := by
  have hroom := room_reachable h
  refine ⟨?_, ?_⟩
  · intro m left write
    exact hroom.not_waiting m left write
  · intro left write hpc ms hms
    rcases hroom with (hout | hout) | ⟨left', write', hr, hle⟩
    · exact absurd (hpc.symm.trans hout) (by simp)
    · exact absurd (hpc.symm.trans hout) (by simp)
    · obtain ⟨rfl, rfl⟩ := Pc.reading.inj (hr.symm.trans hpc)
      exact reads_out hpc hle ms hms

/-- The request of the kernel to delete the object `a`. -/
def deleteRequest (seq : UInt64) : Header × Bytes :=
  (requestHeader rawOpDeleteObject seq (deleteObjectBody 1 ⟨0, 0, 0, 0, [97], 0⟩),
    deleteObjectBody 1 ⟨0, 0, 0, 0, [97], 0⟩)

def noLeader : LeaderEndpoint := ⟨Err.raftErrNotFoundLeader, -1, [], 0⟩

theorem Listener.reachable_follow {s : Listener} {ls : List Label}
    (h : Lts.follow Listener.step? Listener.SmallBursts {} ls = some s) :
    (listener.restrict Listener.SmallBursts).Reachable s := by
  have hinit : (listener.restrict Listener.SmallBursts).Reachable {} := .of_init rfl
  exact hinit.follow (fun _ _ _ h => h) h

/-- Two requests are in the socket, and one of them is read. -/
theorem listener_returns_reading :
    ∃ s : Listener, s.pc = .reading 1 false ∧ (∀ m left write, s.pc ≠ .waiting m left write) ∧
      ∀ left write, s.pc = .reading left write → ∀ ms : List ((Header × Bytes) × LeaderEndpoint), ms.length = left →
        ∃ ls t, ls.Sublist (ms.map (fun m => Label.receive m.1 m.2) ++ [.receiveNone]) ∧ listener.Run s ls t ∧
          t.Outside := by
  obtain ⟨s, hs, hpc⟩ : ∃ s, Lts.follow step? SmallBursts {}
      [.poll { inp := true } 2, .receive (deleteRequest 1) noLeader] = some s ∧ s.pc = .reading 1 false :=
    ⟨_, rfl, by decide +kernel⟩
  exact ⟨s, hpc, listener_returns (reachable_follow hs)⟩

/-- A burst of 129 requests to delete an object. -/
def longBurst : List ((Header × Bytes) × LeaderEndpoint) :=
  (List.range 129).map fun k => (deleteRequest (UInt64.ofNat (k + 1)), noLeader)

theorem longBurst_seqs : (longBurst.map fun m => m.1.1.seq) = (List.range 129).map fun k => UInt64.ofNat (k + 1) := by
  rw [longBurst, List.map_map]
  rfl

theorem toNat_ofNat_of_lt {k : Nat} (h : k < 129) : (UInt64.ofNat (k + 1)).toNat = k + 1 := by
  rw [UInt64.toNat_ofNat']
  omega

theorem longBurst_numbered : ((List.range 129).map fun k => UInt64.ofNat (k + 1)).Nodup ∧
    ∀ q ∈ (List.range 129).map fun k => UInt64.ofNat (k + 1), q ≠ 0 := by
  constructor
  · refine List.nodup_range.map_on fun a ha b hb heq => ?_
    have hnat := congrArg UInt64.toNat heq
    rw [toNat_ofNat_of_lt (List.mem_range.mp ha), toNat_ofNat_of_lt (List.mem_range.mp hb)] at hnat
    exact Nat.succ.inj hnat
  · intro q hq hz
    obtain ⟨k, hk, rfl⟩ := List.mem_map.mp hq
    have hnat := congrArg UInt64.toNat hz
    rw [toNat_ofNat_of_lt (List.mem_range.mp hk)] at hnat
    exact absurd hnat (Nat.succ_ne_zero k)

theorem longBurst_stuck : ∃ s, listener.Reachable s ∧ s.Stuck ∧ s.conn.sent = [] ∧ s.conn.wire = [] := by
  have hinit : listener.Reachable {} := .of_init rfl
  have hpoll : listener.Reachable { pc := .reading 129 false } := by
    have hstep : Listener.step? {} (.poll { inp := true } 129) = some { pc := .reading 129 false } := by decide +kernel
    exact hinit.step hstep
  have hseqs := longBurst_numbered
  obtain ⟨ls, t, hrun, hstuck, hsent, hwire, -⟩ :=
    @Listener.burst_stuck { pc := .reading 129 false } 129 false longBurst
    rfl rfl (by simp [longBurst]) (by decide) (by decide)
    (fun m hm => hseqs.2 _ (longBurst_seqs ▸ List.mem_map_of_mem hm)) (by
      rw [longBurst_seqs]
      exact hseqs.1)
  exact ⟨t, hpoll.run hrun, hstuck, hsent, hwire⟩

/-- A client sends 129 requests at once. The listener waits in
`enqueue_inflight_response`, and it still waits after whatever the client
and the OSD do, as long as the server is not stopped. -/
theorem long_burst_blocks :
    ∃ s, listener.Reachable s ∧ (∃ m left write, s.pc = .waiting m left write) ∧
      ∀ ls t, .stop ∉ ls → listener.Run s ls t → ∃ m left write, t.pc = .waiting m left write := by
  obtain ⟨s, hreach, hstuck, -, -⟩ := longBurst_stuck
  exact ⟨s, hreach, hstuck.waiting, fun ls t hls hrun => (Listener.stuck_run hstuck hls hrun).1.waiting⟩

end Fastblock.L5.Raw
