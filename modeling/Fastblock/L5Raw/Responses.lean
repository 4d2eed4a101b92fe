import Fastblock.L5Raw.Listener

/-!
# One response for each request

In every run of the listener an open connection has sent whole frames, one
for each request that is answered, and a part of the frame that it is
sending (`Conn.Inv`). What is left is that a request that the OSD has
completed is answered: the listener comes back to it as long as it does
not get stuck while it reads, so `one_response` has the condition of
`listener_returns` on the bursts of the client.

A run of `Writes` is what the listener can do by itself, given a socket
that takes bytes: no request is read and no error happens. Outside
`service_connection_io` such a run sends all that was completed
(`writes_completed`); without the condition, `long_burst_unanswered`.
-/
namespace Fastblock.L5.Raw

open Fastblock.Core

/-- A whole frame in answer to a request. -/
def IsResponse (frame : Bytes) (request : Header) (status : RawStatus) (body : Bytes) : Prop :=
  ∃ h : Header, frame = h.bytes ++ body ∧ h.seq = request.seq ∧ h.opcode = request.opcode ∧
    h.flags = request.flags ||| rawFlagResponse ∧ h.status = RawStatus.code status ∧ h.bodyLen.toNat = body.length

theorem Inflight.isResponse {i : Inflight} (h : i.body.length ≤ maxRawBodyLen) :
    IsResponse i.frame i.header i.status i.body := by
  refine ⟨i.responseHeader, rfl, rfl, rfl, rfl, rfl, ?_⟩
  exact UInt32.toNat_ofNat_of_lt' (Nat.lt_of_le_of_lt h (by decide))

namespace Conn

variable {c : Conn}

/-- A request that has left `pending` was completed, and its frame is the
response to it. -/
theorem Inv.isResponse (h : c.Inv) {r : Nat} (hr : r ∈ c.sent ∨ c.sending = some r) :
    ∃ i status body, c.inflights[r]? = some i ∧ firstCallback c.callbacks r = some (status, body) ∧
      IsResponse (frameOf c.inflights r) i.header status body := by
  have hlt : r < c.inflights.length := hr.elim h.lt_of_sent h.lt_of_sending
  have hpending : r ∉ c.pending := fun hp => hr.elim (h.pending_sent r hp) (h.pending_sending r hp)
  have hi := List.getElem?_eq_getElem hlt
  have hcompleted := (h.completed r _ hi).mpr (.inr hpending)
  have hans := (h.answers r _ hi).2
  cases hf : firstCallback c.callbacks r with
  | none =>
    rw [hf] at hans
    exact absurd (hcompleted.symm.trans hans) (by decide)
  | some a =>
    obtain ⟨status, body⟩ := a
    rw [hf] at hans
    obtain ⟨-, hstatus, hbody⟩ := hans
    refine ⟨_, status, body, hi, rfl, ?_⟩
    have hmem : body.length ≤ maxRawBodyLen := by
      obtain ⟨p, hp, hpe⟩ := Option.map_eq_some_iff.mp hf
      have := h.bodies p (List.mem_of_find?_eq_some hp)
      rwa [hpe] at this
    rw [frameOf, hi, Option.map_some, Option.getD_some, ← hstatus, ← hbody]
    exact Inflight.isResponse (hbody ▸ hmem)

/-- A request that was completed is ready, being sent, or sent. -/
theorem Inv.place_of_callback (h : c.Inv) {r : Nat} (hr : (firstCallback c.callbacks r).isSome) :
    r ∈ c.ready ∨ c.sending = some r ∨ r ∈ c.sent := by
  obtain ⟨a, hf⟩ := Option.isSome_iff_exists.mp hr
  obtain ⟨p, hp, -⟩ := Option.map_eq_some_iff.mp hf
  have hpr : p.1 = r := by simpa using List.find?_some hp
  have hlt : r < c.inflights.length := hpr ▸ h.callbacks p (List.mem_of_find?_eq_some hp)
  have hi := List.getElem?_eq_getElem hlt
  have hans := (h.answers r _ hi).2
  rw [hf] at hans
  rcases (h.completed r _ hi).mp hans.1 with hready | hpending
  · exact .inl hready
  · exact .inr (((h.place r).mp hlt).resolve_left hpending)

end Conn

/-! ## The listener comes back to what is ready -/

/-- The steps of a round that does not read and whose socket takes what it
is given. -/
def Label.IsWrite : Label → Prop
  | .poll rev _ => rev.inp = false ∧ rev.err = false
  | .next | .send _ | .sendDone => True
  | _ => False

namespace Listener

variable {s t : Listener}

/-- `t` comes from `s` by writing. -/
def Writes (s t : Listener) : Prop := ∃ ls, (∀ l ∈ ls, l.IsWrite) ∧ listener.Run s ls t

theorem Writes.refl (s : Listener) : Writes s s := ⟨[], by simp, .nil s⟩

theorem Writes.step {l : Label} {u : Listener} (h : Writes s t) (hl : l.IsWrite) (hs : t.step? l = some u) :
    Writes s u := by
  obtain ⟨ls, hls, hrun⟩ := h
  refine ⟨ls ++ [l], ?_, hrun.snoc hs⟩
  intro k hk
  rcases List.mem_append.mp hk with hk | hk
  · exact hls k hk
  · exact List.mem_singleton.mp hk ▸ hl

theorem Writes.trans {u : Listener} (h : Writes s t) (h' : Writes t u) : Writes s u := by
  obtain ⟨ls, hls, hrun⟩ := h'
  induction hrun with
  | nil => exact h
  | snoc _ hs ih =>
    have hl := hls _ (List.mem_append_right _ List.mem_cons_self)
    exact (ih fun k hk => hls k (List.mem_append_left _ hk)).step hl hs

theorem Writes.reachable (h : Writes s t) (hr : listener.Reachable s) : listener.Reachable t := by
  obtain ⟨ls, -, hrun⟩ := h
  exact hr.run hrun

/-- The state after the frame that is being sent has gone. -/
def flushed (s : Listener) (r : Nat) : Listener :=
  { s with conn := { s.conn with
      wire := s.conn.wire ++ s.conn.sendFrame.drop s.conn.sendBytes
      sending := none, sendFrame := [], sendBytes := 0, sent := s.conn.sent ++ [r] } }

theorem sendDone_step {r : Nat} (hpc : s.pc = .writing) (hs : s.conn.sending = some r)
    (hle : s.conn.sendFrame.length ≤ s.conn.sendBytes) :
    s.step? .sendDone = some { s with conn := { s.conn.resetConnectionSend with sent := s.conn.sent ++ [r] } } := by
  simp only [step?, hs]
  rw [if_pos ⟨hpc, hle⟩]

/-- A socket that takes what is left of the frame. -/
theorem writes_flushed {r : Nat} (hpc : s.pc = .writing) (hs : s.conn.sending = some r) : Writes s (s.flushed r) := by
  by_cases hle : s.conn.sendFrame.length ≤ s.conn.sendBytes
  · have heq : s.flushed r = { s with conn := { s.conn.resetConnectionSend with sent := s.conn.sent ++ [r] } } := by
      simp [flushed, Conn.resetConnectionSend, List.drop_eq_nil_of_le hle]
    rw [heq]
    exact (Writes.refl s).step (l := .sendDone) trivial (sendDone_step hpc hs hle)
  · have hsend : s.step? (.send (s.conn.sendFrame.length - s.conn.sendBytes)) = some { s with conn := { s.conn with
        wire := s.conn.wire ++ (s.conn.sendFrame.drop s.conn.sendBytes).take
          (s.conn.sendFrame.length - s.conn.sendBytes)
        sendBytes := s.conn.sendBytes + (s.conn.sendFrame.length - s.conn.sendBytes) } } := by
      simp only [step?]
      rw [if_pos ⟨hpc, by simp [hs], by omega, Nat.le_refl _⟩]
    have hall : (s.conn.sendFrame.drop s.conn.sendBytes).take (s.conn.sendFrame.length - s.conn.sendBytes) =
        s.conn.sendFrame.drop s.conn.sendBytes := List.take_of_length_le (by simp)
    rw [hall] at hsend
    exact ((Writes.refl s).step (l := .send _) trivial hsend).step (l := .sendDone) trivial
      (sendDone_step hpc hs (by dsimp only; omega))

/-- With nothing being sent, the loop of `service_connection_write` sends
all that is ready. -/
theorem writes_ready (hreach : listener.Reachable s) (hopen : s.conn.stopping = false) (hpc : s.pc = .writing)
    (hs : s.conn.sending = none) :
    ∃ t, Writes s t ∧ t.conn.stopping = false ∧ ∀ r, r ∈ s.conn.ready ∨ r ∈ s.conn.sent → r ∈ t.conn.sent := by
  -- each turn sends one of those that are ready
  generalize hn : s.conn.ready.length = n
  induction n generalizing s with
  | zero =>
    refine ⟨s, .refl s, hopen, ?_⟩
    intro r hr
    rw [List.length_eq_zero_iff.mp hn] at hr
    exact hr.resolve_left List.not_mem_nil
  | succ n ih =>
    have hinv := (inv_reachable hreach hopen).conn
    cases htake : s.conn.takeReady with
    | none =>
      rw [Conn.takeReady_eq_none.mp htake] at hn
      cases hn
    | some c =>
      obtain ⟨-, r, hready, hsend⟩ := hinv.takeReady hs htake
      have hstep : s.step? .next = some { s with conn := c } := by
        simp only [step?, hpc, hopen, hs, htake, if_true, Bool.false_eq_true, if_false, Option.isSome_none]
      have hw : Writes s ({ s with conn := c } : Listener) := (Writes.refl s).step (l := .next) trivial hstep
      have hw' := hw.trans (writes_flushed hpc hsend)
      have hc : c.stopping = s.conn.stopping ∧ c.sent = s.conn.sent := Conn.takeReady_keeps htake
      obtain ⟨t, ht, hto, hall⟩ := ih (hw'.reachable hreach) (hc.1.trans hopen) hpc rfl (by
        rw [hready] at hn
        exact Nat.succ.inj hn)
      refine ⟨t, hw'.trans ht, hto, ?_⟩
      intro k hk
      apply hall k
      rw [hready, List.mem_cons] at hk
      dsimp only [flushed]
      rw [List.mem_append, List.mem_singleton, hc.2]
      tauto

/-- The listener, out of `service_connection_io`, can answer all that was
completed. -/
theorem writes_completed (hreach : listener.Reachable s) (hopen : s.conn.stopping = false) (hout : s.Outside) :
    ∃ t, Writes s t ∧ t.conn.stopping = false ∧
      ∀ r, (firstCallback s.conn.callbacks r).isSome → r ∈ t.conn.sent := by
  have hinv := inv_reachable hreach hopen
  have hwriting : ∀ s : Listener, listener.Reachable s → s.conn.stopping = false → s.pc = .writing →
      ∃ t, Writes s t ∧ t.conn.stopping = false ∧
        ∀ r, r ∈ s.conn.ready ∨ s.conn.sending = some r ∨ r ∈ s.conn.sent → r ∈ t.conn.sent := by
    intro s hreach hopen hpc
    cases hs : s.conn.sending with
    | none =>
      obtain ⟨t, ht, hto, hall⟩ := writes_ready hreach hopen hpc hs
      exact ⟨t, ht, hto, fun r hr => hall r (by simpa using hr)⟩
    | some k =>
      -- first the frame that is being sent
      have hw := writes_flushed hpc hs
      obtain ⟨t, ht, hto, hall⟩ := writes_ready (hw.reachable hreach) hopen hpc rfl
      refine ⟨t, hw.trans ht, hto, ?_⟩
      intro r hr
      apply hall r
      dsimp only [flushed]
      rw [List.mem_append, List.mem_singleton]
      rcases hr with hr | hr | hr
      · exact .inl hr
      · exact .inr (.inr (Option.some.inj hr).symm)
      · exact .inr (.inl hr)
  rcases hout with hpc | hpc
  · by_cases hidle : s.conn.ready = [] ∧ s.conn.sending = none
    · refine ⟨s, .refl s, hopen, ?_⟩
      intro r hr
      have := hinv.conn.place_of_callback hr
      rw [hidle.1, hidle.2] at this
      simpa using this
    · -- the next round writes: it was woken, or it asks for POLLOUT
      have hwoken : (s.conn.sending.isSome || s.conn.wake) = true := by
        by_cases hready : s.conn.ready = []
        · cases hs : s.conn.sending with
          | none => exact absurd ⟨hready, hs⟩ hidle
          | some k => rfl
        · have := hinv.woken hready
          rw [hpc] at this
          rw [Bool.or_eq_true]
          exact this.symm
      have hstep : s.step? (.poll { out := s.conn.sending.isSome } 0) =
          some { conn := { s.conn with wake := false }, pc := .writing } := by
        simp only [step?, hpc, poll, hinv.conn.done, hwoken, true_and, imp_self, if_true, Bool.false_eq_true, if_false,
          Pc.behindIo]
      have hw : Writes s { conn := { s.conn with wake := false }, pc := .writing } :=
        (Writes.refl s).step (l := .poll _ 0) ⟨rfl, rfl⟩ hstep
      obtain ⟨t, ht, hto, hall⟩ := hwriting _ (hw.reachable hreach) hopen rfl
      exact ⟨t, hw.trans ht, hto, fun r hr => hall r (hinv.conn.place_of_callback hr)⟩
  · obtain ⟨t, ht, hto, hall⟩ := hwriting s hreach hopen hpc
    exact ⟨t, ht, hto, fun r hr => hall r (hinv.conn.place_of_callback hr)⟩

end Listener

open Listener

/-- In every run in which each round that reads finds at most as many
requests as can still be pending, and in every state in which the
connection is open: what was sent are the frames of the requests in
`sent`, each of them once, and a part of the frame of one further request;
a frame that was sent or is being sent is the response to its request with
the status and the body of the first completion; and the listener does not
wait in `enqueue_inflight_response`, and from outside
`service_connection_io` it can send the responses of all requests that
were completed. -/
theorem one_response {s : Listener} (h : (listener.restrict SmallBursts).Reachable s)
    (hopen : s.conn.stopping = false) :
    s.conn.sent.Nodup ∧
      (∃ part : Bytes, s.conn.wire = s.conn.sent.flatMap (frameOf s.conn.inflights) ++ part ∧
        (s.conn.sending = none → part = []) ∧
        ∀ r, s.conn.sending = some r → r ∉ s.conn.sent ∧ part <+: frameOf s.conn.inflights r) ∧
      (∀ r, r ∈ s.conn.sent ∨ s.conn.sending = some r → ∃ i status body, s.conn.inflights[r]? = some i ∧
        firstCallback s.conn.callbacks r = some (status, body) ∧
        IsResponse (frameOf s.conn.inflights r) i.header status body) ∧
      (∀ m left write, s.pc ≠ .waiting m left write) ∧
      (s.Outside → ∃ t, Writes s t ∧ t.conn.stopping = false ∧
        ∀ r, (firstCallback s.conn.callbacks r).isSome → r ∈ t.conn.sent) := by
  have hreach := h.of_restrict
  have hinv := (inv_reachable hreach hopen).conn
  refine ⟨hinv.sent, ⟨_, hinv.wire, ?_, ?_⟩, fun r hr => hinv.isResponse hr, ?_, writes_completed hreach hopen⟩
  · intro hs
    rw [(hinv.idle hs).1, List.take_nil]
  · intro r hr
    refine ⟨fun hm => hinv.sending_sent r hm hr, ?_⟩
    rw [← (hinv.frame r hr).1]
    exact List.take_prefix _ _
  · intro m left write
    exact (room_reachable h).not_waiting m left write

/-- One request is completed twice, and the first 5 bytes of its response
are sent. -/
theorem one_response_partial :
    ∃ s : Listener, s.conn.sending = some 0 ∧ s.conn.wire.length = 5 ∧ s.conn.callbacks.length = 2 ∧
      ∃ i status body, s.conn.inflights[0]? = some i ∧ firstCallback s.conn.callbacks 0 = some (status, body) ∧
        IsResponse (frameOf s.conn.inflights 0) i.header status body := by
  obtain ⟨s, hs, hopen, hsend, hwire, hcalls⟩ : ∃ s : Listener, Lts.follow step? SmallBursts {}
      [.poll { inp := true } 1, .receive (deleteRequest 1) noLeader, .receiveNone, .callback 0 ⟨Err.success, []⟩,
        .callback 0 ⟨Err.einval, []⟩, .poll {} 0, .next, .send 5] = some s ∧
      s.conn.stopping = false ∧ s.conn.sending = some 0 ∧ s.conn.wire.length = 5 ∧ s.conn.callbacks.length = 2 :=
    ⟨_, rfl, by decide +kernel, by decide +kernel, by decide +kernel, by decide +kernel⟩
  exact ⟨s, hsend, hwire, hcalls, (one_response (reachable_follow hs) hopen).2.2.1 0 (.inr hsend)⟩

/-- A client sends 129 requests at once and the OSD completes the first one:
it is never answered, and nothing is ever sent, as long as the server is not
stopped. -/
theorem long_burst_unanswered :
    ∃ s, listener.Reachable s ∧ s.conn.stopping = false ∧ (firstCallback s.conn.callbacks 0).isSome ∧
      ∀ ls t, .stop ∉ ls → listener.Run s ls t → t.conn.sent = [] ∧ t.conn.wire = [] := by
  obtain ⟨s, hreach, hstuck, hsent, hwire⟩ := longBurst_stuck
  have hinv := (inv_reachable hreach hstuck.stopping).conn
  obtain ⟨p, ps, hpending⟩ : ∃ p ps, s.conn.pending = p :: ps := by
    cases hp : s.conn.pending with
    | nil =>
      have := hstuck.full
      rw [hp] at this
      exact absurd this (by decide)
    | cons p ps => exact ⟨p, ps, rfl⟩
  have hlt : 0 < s.conn.inflights.length :=
    Nat.zero_lt_of_lt (hinv.lt_of_pending (hpending ▸ List.mem_cons_self))
  obtain ⟨t, ht, hcalls⟩ : ∃ t, s.step? (.callback 0 ⟨Err.success, []⟩) = some t ∧
      (firstCallback t.conn.callbacks 0).isSome := by
    simp only [step?, List.getElem?_eq_getElem hlt]
    refine ⟨_, rfl, ?_⟩
    rw [Conn.callbacks_completeInflightResponse, firstCallback_append_self]
    rfl
  obtain ⟨hstuck', hsent', hwire'⟩ := stuck_step hstuck (by simp) ht
  refine ⟨t, hreach.step ht, hstuck'.stopping, hcalls, ?_⟩
  intro ls u hls hrun
  obtain ⟨-, hsent'', hwire''⟩ := stuck_run hstuck' hls hrun
  exact ⟨hsent''.trans (hsent'.trans hsent), hwire''.trans (hwire'.trans hwire)⟩

end Fastblock.L5.Raw
