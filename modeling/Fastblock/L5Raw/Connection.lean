import Fastblock.L5Raw.Codecs

/-!
# A connection of the raw server

The requests of a connection between their acceptance and their answer
(src/osd/raw_tcp_server.cc:92-117, 486-592, 824-855, 1607-1672). A request
that is accepted is in `pending` and `inflight_by_seq`; once a thread of
the OSD has completed it, it is also in `ready`; then the listener takes
it out of all three, builds the frame of its response and sends it, in as
many pieces as the socket asks for.

`Conn.Inv` says how these places go together while the connection is open:
* a request is pending, being sent or sent, and in one of them only;
* the numbers of the pending requests differ, so `inflight_by_seq` finds
  each of them;
* a request is completed with the status and the body of its first
  completion (`Inv.completeInflightResponse_eq`);
* the socket has whole frames and a part of the one that is being sent.

`Inv.accept`, `Inv.completeInflightResponse`, `Inv.takeReady`, `Inv.send`
and `Inv.sendDone` keep it.
-/
namespace Fastblock.L5.Raw

open Fastblock.Core

def RawStatus.code : RawStatus → UInt32
  | .ok => 0
  | .invalidRequest => 1
  | .notFound => 2
  | .staleEpoch => 3
  | .retryLater => 4
  | .notLeader => 5
  | .pgInitializing => 6
  | .osdDown => 7
  | .internalError => 8

def rawMaxInflightRequests : Nat := 128

/-- `osd_raw_tcp_inflight_response`. -/
structure Inflight where
  header : Header
  status : RawStatus := .internalError
  body : Bytes := []
  completed : Bool := false
  detached : Bool := false
  deriving DecidableEq, Repr

/-- `osd_raw_tcp_connection_state` with the sending half of
`connection_context`. A shared pointer to an inflight response is its
position in `inflights`. -/
structure Conn where
  inflights : List Inflight := []
  stopping : Bool := false
  done : Bool := false
  pending : List Nat := []
  ready : List Nat := []
  inflightBySeq : List (UInt64 × Nat) := []
  sending : Option Nat := none
  sendFrame : Bytes := []
  sendBytes : Nat := 0
  /-- the pipe that wakes the listener is readable -/
  wake : Bool := false
  /-- history: the bytes that the socket took -/
  wire : Bytes := []
  /-- history: the responses that were sent -/
  sent : List Nat := []
  /-- history: the calls of `complete_inflight_response` -/
  callbacks : List (Nat × RawStatus × Bytes) := []
  deriving DecidableEq, Repr

namespace Conn

variable (c : Conn)

/-- `stop_connection`. -/
def stopConnection : Conn :=
  { c with
    stopping := true
    inflights := c.inflights.mapIdx fun r i => if r ∈ c.inflightBySeq.map Prod.snd
      then { i with detached := true } else i
    inflightBySeq := []
    pending := []
    ready := [] }

/-- `close_connection`. -/
def closeConnection : Conn := { c.stopConnection with done := true }

/-- What the condition variable of `enqueue_inflight_response` waits for. -/
def CanEnqueue : Prop := c.stopping = true ∨ c.pending.length < rawMaxInflightRequests

instance : Decidable c.CanEnqueue := inferInstanceAs (Decidable (_ ∨ _))

/-- `enqueue_inflight_response` behind the wait, for a new inflight
response; `none` is `false`. -/
def enqueueInflightResponse (h : Header) : Option Conn :=
  if h.seq = 0 ∨ c.stopping ∨ h.seq ∈ c.inflightBySeq.map Prod.fst then none
  else
    some { c with
      inflights := c.inflights ++ [{ header := h }]
      pending := c.pending ++ [c.inflights.length]
      inflightBySeq := c.inflightBySeq ++ [(h.seq, c.inflights.length)] }

/-- `complete_inflight_response`. -/
def completeInflightResponse (r : Nat) (status : RawStatus) (body : Bytes) : Conn :=
  let c := { c with callbacks := c.callbacks ++ [(r, status, body)] }
  match c.inflights[r]? with
  | none => c
  | some i =>
    -- a second completion, or one that comes after the connection ended
    if i.detached ∨ c.stopping ∨ i.completed ∨ c.inflightBySeq.lookup i.header.seq ≠ some r then c
    else
      { c with
        inflights := c.inflights.set r { i with status, body, completed := true }
        ready := c.ready ++ [r]
        wake := true }

/-- `dispatch_request` for the request of `r`; `leader` is what
`resolve_pg_leader` finds. -/
def dispatchRequest (r : Nat) (m : Header × Bytes) (leader : LeaderEndpoint) : Conn :=
  match Raw.dispatchRequest m.1 m.2 with
  | .refuse status => c.completeInflightResponse r status []
  | .call (.getLeader _ _) => c.completeInflightResponse r (leaderResponse leader).1 (leaderResponse leader).2
  -- the others answer from a thread of the OSD
  | .call _ => c

/-- Accepting a request in `service_connection_io`; `none` if it is
refused. -/
def accept (m : Header × Bytes) (leader : LeaderEndpoint) : Option Conn :=
  (c.enqueueInflightResponse m.1).map fun c' => c'.dispatchRequest c.inflights.length m leader

end Conn

/-- What the closure of a request makes of the reply of `osd_service`. -/
def closure (h : Header) (reply : ReadReply) : RawStatus × Bytes :=
  if h.opcode = rawOpReadObject then readResponse reply else (rawStatusFromErrno reply.state, [])

/-- The header that `service_connection_write` makes of the header of the
request. -/
def Inflight.responseHeader (i : Inflight) : Header :=
  { i.header with
    magic := rawMagic
    versionMajor := rawVersionMajor
    versionMinor := rawVersionMinor
    service := rawServiceOsd
    flags := i.header.flags ||| rawFlagResponse
    status := RawStatus.code i.status
    bodyLen := UInt32.ofNat i.body.length }

def Inflight.frame (i : Inflight) : Bytes := i.responseHeader.bytes ++ i.body

namespace Conn

variable (c : Conn)

/-- One turn of the loop of `service_connection_write` that finds nothing
being sent; `none` if nothing is ready. -/
def takeReady : Option Conn :=
  match c.ready with
  | [] => none
  | r :: ready =>
    let c := { c with ready }
    match c.inflights[r]? with
    | none => some c
    | some i =>
      if r ∉ c.pending then some c
      else
        some { c with
          inflightBySeq := c.inflightBySeq.filter fun p => p.1 ≠ i.header.seq
          pending := c.pending.erase r
          sending := some r
          sendFrame := i.frame }

/-- `reset_connection_send`. -/
def resetConnectionSend : Conn := { c with sending := none, sendFrame := [], sendBytes := 0 }

end Conn

/-! ## What an open connection keeps -/

theorem leaderResponse_length (leader : LeaderEndpoint) : (leaderResponse leader).2.length ≤ maxRawBodyLen := by
  unfold leaderResponse
  split
  · exact Nat.zero_le _
  · split
    · exact Nat.zero_le _
    · simp [buildLeaderResponseBody, maxRawBodyLen]
      omega

theorem rawReadResponse_length (r : ReadReply) : 8 + (rawReadResponse r).2.length ≤ maxRawBodyLen := by
  unfold rawReadResponse
  split
  · simp [maxRawBodyLen]
  · split
    · simp [maxRawBodyLen]
    · next hle =>
      dsimp only
      have : 8 ≤ maxRawBodyLen := by decide
      omega

theorem closure_length (h : Header) (reply : ReadReply) : (closure h reply).2.length ≤ maxRawBodyLen := by
  unfold closure
  split
  · have hlen := rawReadResponse_length reply
    unfold readResponse
    split
    · next data hr =>
      rw [hr] at hlen
      simpa [buildReadResponseBody] using hlen
    · exact Nat.zero_le _
  · exact Nat.zero_le _

def seqOf (is : List Inflight) (r : Nat) : UInt64 := (is[r]?.map fun i => i.header.seq).getD 0

def frameOf (is : List Inflight) (r : Nat) : Bytes := (is[r]?.map Inflight.frame).getD []

/-- The first call of `complete_inflight_response` for `r`. -/
def firstCallback (calls : List (Nat × RawStatus × Bytes)) (r : Nat) : Option (RawStatus × Bytes) :=
  (calls.find? (·.1 = r)).map Prod.snd

/-- The state of an inflight response says what its first callback was. -/
def Inflight.Answers (i : Inflight) : Option (RawStatus × Bytes) → Prop
  | none => i.completed = false
  | some (status, body) => i.completed = true ∧ i.status = status ∧ i.body = body

section Lists

variable {is : List Inflight} {i j : Inflight} {r : Nat} {calls : List (Nat × RawStatus × Bytes)}

theorem seqOf_append (h : r < is.length) : seqOf (is ++ [i]) r = seqOf is r := by
  rw [seqOf, List.getElem?_append_left h, seqOf]

theorem seqOf_length : seqOf (is ++ [i]) is.length = i.header.seq := by simp [seqOf]

theorem frameOf_append (h : r < is.length) : frameOf (is ++ [i]) r = frameOf is r := by
  rw [frameOf, List.getElem?_append_left h, frameOf]

theorem frameOf_set {k : Nat} (h : k ≠ r) : frameOf (is.set k i) r = frameOf is r := by
  rw [frameOf, List.getElem?_set_ne h, frameOf]

theorem seqOf_set {k : Nat} (hk : is[k]? = some j) (h : i.header = j.header) : seqOf (is.set k i) r = seqOf is r := by
  by_cases hkr : k = r
  · subst hkr
    have hlt := (List.getElem?_eq_some_iff.mp hk).1
    rw [seqOf, List.getElem?_set_self hlt, seqOf, hk]
    simp [h]
  · rw [seqOf, List.getElem?_set_ne hkr, seqOf]

/-- The inflight responses when one is added at the end. -/
theorem getElem?_concat_cases (h : (is ++ [i])[r]? = some j) :
    (r < is.length ∧ is[r]? = some j) ∨ (r = is.length ∧ j = i) := by
  rw [List.getElem?_append] at h
  split at h
  · next hlt => exact .inl ⟨hlt, h⟩
  · next hge =>
    have hlt := (List.getElem?_eq_some_iff.mp h).1
    rw [List.length_singleton] at hlt
    have hr : r = is.length := by omega
    subst hr
    rw [Nat.sub_self] at h
    exact .inr ⟨rfl, (Option.some.inj h).symm⟩

theorem firstCallback_eq_none (h : ∀ p ∈ calls, p.1 < r) : firstCallback calls r = none := by
  rw [firstCallback, List.find?_eq_none.mpr, Option.map_none]
  intro p hp he
  have := h p hp
  simp only [decide_eq_true_eq] at he
  omega

theorem firstCallback_append_ne {k : Nat} {a : RawStatus × Bytes} (h : k ≠ r) :
    firstCallback (calls ++ [(k, a)]) r = firstCallback calls r := by
  simp [firstCallback, List.find?_append, h]

theorem firstCallback_append_self {a : RawStatus × Bytes} :
    firstCallback (calls ++ [(r, a)]) r = some ((firstCallback calls r).getD a) := by
  rw [firstCallback, List.find?_append, firstCallback]
  cases calls.find? (·.1 = r) <;> simp

end Lists

namespace Conn

variable (c : Conn)

/-- Where a request is: pending, being sent, or sent. -/
structure Inv : Prop where
  done : c.done = false
  /-- each request that was accepted is in one of the three places -/
  place : ∀ r, r < c.inflights.length ↔ r ∈ c.pending ∨ c.sending = some r ∨ r ∈ c.sent
  pending : c.pending.Nodup
  sent : c.sent.Nodup
  pending_sending : ∀ r ∈ c.pending, c.sending ≠ some r
  pending_sent : ∀ r ∈ c.pending, r ∉ c.sent
  sending_sent : ∀ r ∈ c.sent, c.sending ≠ some r
  ready : c.ready.Nodup
  ready_pending : ∀ r ∈ c.ready, r ∈ c.pending
  /-- the completed ones are those that are ready and those that are no
  longer pending -/
  completed : ∀ (r : Nat) (i : Inflight), c.inflights[r]? = some i → (i.completed = true ↔ r ∈ c.ready ∨ r ∉ c.pending)
  bySeq : c.inflightBySeq = c.pending.map fun r => (seqOf c.inflights r, r)
  seqs : (c.pending.map (seqOf c.inflights)).Nodup
  callbacks : ∀ p ∈ c.callbacks, p.1 < c.inflights.length
  bodies : ∀ p ∈ c.callbacks, p.2.2.length ≤ maxRawBodyLen
  answers : ∀ (r : Nat) (i : Inflight), c.inflights[r]? = some i → i.detached = false ∧
    i.Answers (firstCallback c.callbacks r)
  idle : c.sending = none → c.sendFrame = [] ∧ c.sendBytes = 0
  frame : ∀ r, c.sending = some r → c.sendFrame = frameOf c.inflights r ∧ c.sendBytes ≤ c.sendFrame.length
  wire : c.wire = c.sent.flatMap (frameOf c.inflights) ++ c.sendFrame.take c.sendBytes

variable {c}

theorem Inv.empty : Inv {} where
  done := rfl
  place := by simp
  pending := List.nodup_nil
  sent := List.nodup_nil
  pending_sending := by simp
  pending_sent := by simp
  sending_sent := by simp
  ready := List.nodup_nil
  ready_pending := by simp
  completed := by simp
  bySeq := rfl
  seqs := List.nodup_nil
  callbacks := by simp
  bodies := by simp
  answers := by simp
  idle := fun _ => ⟨rfl, rfl⟩
  frame := by simp
  wire := rfl

theorem Inv.lt_of_pending (h : c.Inv) {r : Nat} (hr : r ∈ c.pending) : r < c.inflights.length :=
  (h.place r).mpr (.inl hr)

theorem Inv.lt_of_sending (h : c.Inv) {r : Nat} (hr : c.sending = some r) : r < c.inflights.length :=
  (h.place r).mpr (.inr (.inl hr))

theorem Inv.lt_of_sent (h : c.Inv) {r : Nat} (hr : r ∈ c.sent) : r < c.inflights.length :=
  (h.place r).mpr (.inr (.inr hr))

/-- `inflight_by_seq` finds a pending request by its sequence number. -/
theorem Inv.lookup (h : c.Inv) {r : Nat} (hr : r ∈ c.pending) :
    c.inflightBySeq.lookup (seqOf c.inflights r) = some r := by
  rw [h.bySeq]
  have hseqs := h.seqs
  generalize c.pending = ps at hr hseqs
  induction ps with
  | nil => cases hr
  | cons p ps ih =>
    rw [List.map_cons, List.nodup_cons] at hseqs
    rw [List.map_cons, List.lookup_cons]
    rcases List.mem_cons.mp hr with rfl | hr
    · simp
    · have hne : seqOf c.inflights r ≠ seqOf c.inflights p := fun he => hseqs.1 (he ▸ List.mem_map_of_mem hr)
      rw [beq_eq_false_iff_ne.mpr hne]
      exact ih hr hseqs.2

theorem Inv.enqueue {c' : Conn} {hd : Header} (h : c.Inv) (he : c.enqueueInflightResponse hd = some c') : c'.Inv := by
  unfold enqueueInflightResponse at he
  split at he
  · cases he
  next hok =>
  obtain rfl := Option.some.inj he
  -- the new request has the next position, which no place has yet
  have hnew : c.inflights.length ∉ c.pending := fun hm => Nat.lt_irrefl _ (h.lt_of_pending hm)
  have hold : ∀ r ∈ c.pending ++ [c.inflights.length], r < c.inflights.length → r ∈ c.pending := fun r hr hlt =>
    (List.mem_append.mp hr).resolve_right fun he => Nat.ne_of_lt hlt (List.mem_singleton.mp he)
  have hpseq : ∀ r ∈ c.pending, seqOf (c.inflights ++ [{ header := hd }]) r = seqOf c.inflights r :=
    fun r hr => seqOf_append (h.lt_of_pending hr)
  exact { h with
    place := by
      intro r
      rw [List.length_append, List.length_singleton, List.mem_append, List.mem_singleton, Nat.lt_succ_iff_lt_or_eq,
        h.place r]
      tauto
    pending := h.pending.append (List.nodup_singleton _) (by simpa using hnew)
    pending_sending := fun r hr hs => h.pending_sending r (hold r hr (h.lt_of_sending hs)) hs
    pending_sent := fun r hr hs => h.pending_sent r (hold r hr (h.lt_of_sent hs)) hs
    ready_pending := fun r hr => List.mem_append_left _ (h.ready_pending r hr)
    completed := by
      intro r i hi
      rcases getElem?_concat_cases hi with ⟨hlt, hi⟩ | ⟨rfl, rfl⟩
      · rw [h.completed r i hi, List.mem_append, List.mem_singleton]
        have hne : r ≠ c.inflights.length := Nat.ne_of_lt hlt
        tauto
      · have hnr : c.inflights.length ∉ c.ready := fun hm => hnew (h.ready_pending _ hm)
        simp [hnr]
    bySeq := by
      dsimp only
      rw [List.map_append, List.map_singleton, seqOf_length, h.bySeq]
      congr 1
      exact List.map_congr_left fun r hr => by rw [hpseq r hr]
    seqs := by
      dsimp only
      rw [List.map_append, List.map_singleton, seqOf_length, List.map_congr_left hpseq]
      refine h.seqs.append (List.nodup_singleton _) ?_
      have hseq : hd.seq ∉ c.inflightBySeq.map Prod.fst := fun hm => hok (.inr (.inr hm))
      rw [h.bySeq, List.map_map] at hseq
      simpa using hseq
    callbacks := by
      intro p hp
      have := h.callbacks p hp
      rw [List.length_append]
      omega
    answers := by
      intro r i hi
      rcases getElem?_concat_cases hi with ⟨hlt, hi⟩ | ⟨rfl, rfl⟩
      · exact h.answers r i hi
      · refine ⟨rfl, ?_⟩
        rw [firstCallback_eq_none h.callbacks]
        rfl
    frame := by
      intro r hr
      rw [frameOf_append (h.lt_of_sending hr)]
      exact h.frame r hr
    wire := by
      dsimp only
      rw [h.wire]
      congr 1
      exact List.flatMap_congr fun r hr => (frameOf_append (h.lt_of_sent hr)).symm }

/-- On an open connection a completion takes effect if and only if it is the
first one of its request. -/
theorem Inv.completeInflightResponse_eq (h : c.Inv) (hopen : c.stopping = false) {r : Nat} {i : Inflight}
    (hi : c.inflights[r]? = some i) (status : RawStatus) (body : Bytes) :
    c.completeInflightResponse r status body =
      if i.completed then { c with callbacks := c.callbacks ++ [(r, status, body)] }
      else
        { c with
          callbacks := c.callbacks ++ [(r, status, body)]
          inflights := c.inflights.set r { i with status, body, completed := true }
          ready := c.ready ++ [r]
          wake := true } := by
  unfold completeInflightResponse
  dsimp only
  rw [hi]
  dsimp only
  have hdet := (h.answers r i hi).1
  cases hc : i.completed with
  | true => simp
  | false =>
    have hpending : r ∈ c.pending := by
      have := h.completed r i hi
      rw [hc] at this
      simp only [Bool.false_eq_true, false_iff, not_or, not_not] at this
      exact this.2
    have hseq : seqOf c.inflights r = i.header.seq := by simp [seqOf, hi]
    simp [hdet, hopen, ← hseq, h.lookup hpending]

theorem Inv.bodies_append (h : c.Inv) {r : Nat} {a : RawStatus × Bytes} (ha : a.2.length ≤ maxRawBodyLen) :
    ∀ p ∈ c.callbacks ++ [(r, a)], p.2.2.length ≤ maxRawBodyLen := by
  intro p hp
  rcases List.mem_append.mp hp with hp | hp
  · exact h.bodies p hp
  · rw [List.mem_singleton.mp hp]
    exact ha

theorem Inv.callbacks_append (h : c.Inv) {r : Nat} {a : RawStatus × Bytes} (hr : r < c.inflights.length) :
    ∀ p ∈ c.callbacks ++ [(r, a)], p.1 < c.inflights.length := by
  intro p hp
  rcases List.mem_append.mp hp with hp | hp
  · exact h.callbacks p hp
  · rw [List.mem_singleton.mp hp]
    exact hr

/-- A completion that is dropped. -/
theorem Inv.callback {r : Nat} {i : Inflight} {a : RawStatus × Bytes} (h : c.Inv) (hi : c.inflights[r]? = some i)
    (hc : i.completed = true) (ha : a.2.length ≤ maxRawBodyLen) :
    Inv { c with callbacks := c.callbacks ++ [(r, a)] } :=
  { h with
    bodies := h.bodies_append ha
    callbacks := h.callbacks_append (List.getElem?_eq_some_iff.mp hi).1
    answers := by
      intro k j hj
      refine ⟨(h.answers k j hj).1, ?_⟩
      have hans := (h.answers k j hj).2
      by_cases hk : r = k
      · subst hk
        obtain rfl := Option.some.inj (hi.symm.trans hj)
        dsimp only
        rw [firstCallback_append_self]
        cases hf : firstCallback c.callbacks r with
        | none =>
          rw [hf] at hans
          exact absurd (hc.symm.trans hans) (by decide)
        | some b =>
          rw [hf] at hans
          exact hans
      · dsimp only
        rw [firstCallback_append_ne hk]
        exact hans }

/-- The first completion of a request. -/
theorem Inv.completes {r : Nat} {i : Inflight} {status : RawStatus} {body : Bytes} (h : c.Inv)
    (hi : c.inflights[r]? = some i) (hc : i.completed = false) (hb : body.length ≤ maxRawBodyLen) :
    Inv { c with
      callbacks := c.callbacks ++ [(r, status, body)]
      inflights := c.inflights.set r { i with status, body, completed := true }
      ready := c.ready ++ [r]
      wake := true } := by
  have hlt := (List.getElem?_eq_some_iff.mp hi).1
  -- not being sent and not sent, so no frame that `Inv` speaks of changes
  have hstate : r ∉ c.ready ∧ r ∈ c.pending := by
    have := h.completed r i hi
    rw [hc] at this
    simpa using this
  obtain ⟨hready, hpending⟩ := hstate
  have hcases : ∀ (k : Nat) (j : Inflight),
      (c.inflights.set r { i with status, body, completed := true })[k]? = some j →
      (k = r ∧ j = { i with status, body, completed := true }) ∨ (k ≠ r ∧ c.inflights[k]? = some j) := by
    intro k j hj
    by_cases hk : r = k
    · subst hk
      rw [List.getElem?_set_self hlt] at hj
      exact .inl ⟨rfl, (Option.some.inj hj).symm⟩
    · rw [List.getElem?_set_ne hk] at hj
      exact .inr ⟨fun he => hk he.symm, hj⟩
  have hseq : seqOf (c.inflights.set r { i with status, body, completed := true }) = seqOf c.inflights := by
    funext k
    exact seqOf_set hi rfl
  exact { h with
    place := by
      intro k
      rw [List.length_set]
      exact h.place k
    ready := h.ready.append (List.nodup_singleton _) (by simpa using hready)
    ready_pending := by
      intro k hk
      rcases List.mem_append.mp hk with hk | hk
      · exact h.ready_pending k hk
      · exact List.mem_singleton.mp hk ▸ hpending
    completed := by
      intro k j hj
      rcases hcases k j hj with ⟨rfl, rfl⟩ | ⟨hne, hj⟩
      · simp
      · rw [h.completed k j hj, List.mem_append, List.mem_singleton]
        tauto
    bySeq := by
      dsimp only
      rw [hseq]
      exact h.bySeq
    seqs := by
      dsimp only
      rw [hseq]
      exact h.seqs
    callbacks := by
      rw [List.length_set]
      exact h.callbacks_append hlt
    bodies := h.bodies_append hb
    answers := by
      intro k j hj
      dsimp only
      rcases hcases k j hj with ⟨rfl, rfl⟩ | ⟨hne, hj⟩
      · have hans := h.answers k i hi
        refine ⟨hans.1, ?_⟩
        have hnone : firstCallback c.callbacks k = none := by
          cases hf : firstCallback c.callbacks k with
          | none => rfl
          | some a =>
            rw [hf] at hans
            exact absurd (hc.symm.trans hans.2.1) (by decide)
        rw [firstCallback_append_self, hnone]
        exact ⟨rfl, rfl, rfl⟩
      · rw [firstCallback_append_ne fun he => hne he.symm]
        exact h.answers k j hj
    frame := by
      intro k hk
      have hne : r ≠ k := fun he => h.pending_sending r hpending (he ▸ hk)
      dsimp only
      rw [frameOf_set hne]
      exact h.frame k hk
    wire := by
      dsimp only
      rw [h.wire]
      congr 1
      refine List.flatMap_congr fun k hk => ?_
      have hne : r ≠ k := fun he => h.pending_sent r hpending (he ▸ hk)
      exact (frameOf_set hne).symm }

theorem Inv.completeInflightResponse {body : Bytes} (h : c.Inv) (hopen : c.stopping = false) {r : Nat}
    (hr : r < c.inflights.length) (status : RawStatus) (hb : body.length ≤ maxRawBodyLen) :
    (c.completeInflightResponse r status body).Inv := by
  have hi := List.getElem?_eq_getElem hr
  rw [h.completeInflightResponse_eq hopen hi]
  split
  · next hc => exact h.callback hi hc hb
  · next hc => exact h.completes hi (by simpa using hc) hb

theorem takeReady_eq_none : c.takeReady = none ↔ c.ready = [] := by
  unfold Conn.takeReady
  cases c.ready with
  | nil => simp
  | cons r ready =>
    dsimp only
    cases c.inflights[r]? with
    | none => simp
    | some i =>
      dsimp only
      split <;> simp

theorem takeReady_keeps {c' : Conn} (h : c.takeReady = some c') : c'.stopping = c.stopping ∧ c'.sent = c.sent := by
  unfold Conn.takeReady at h
  split at h
  · cases h
  · dsimp only at h
    split at h
    · obtain rfl := Option.some.inj h
      exact ⟨rfl, rfl⟩
    · split at h <;>
      · obtain rfl := Option.some.inj h
        exact ⟨rfl, rfl⟩

/-- Taking a response that is ready: its request leaves `pending` and
`inflight_by_seq`, and its frame is built. -/
theorem Inv.takeReady {c' : Conn} (h : c.Inv) (hs : c.sending = none) (ht : c.takeReady = some c') :
    c'.Inv ∧ ∃ r, c.ready = r :: c'.ready ∧ c'.sending = some r := by
  unfold Conn.takeReady at ht
  split at ht
  · cases ht
  next r ready hready =>
  have hr : r ∈ c.pending := h.ready_pending r (hready ▸ List.mem_cons_self)
  obtain ⟨i, hi⟩ : ∃ i, c.inflights[r]? = some i := ⟨_, List.getElem?_eq_getElem (h.lt_of_pending hr)⟩
  dsimp only at ht
  rw [hi] at ht
  dsimp only at ht
  rw [if_neg (not_not_intro hr)] at ht
  obtain rfl := Option.some.inj ht
  refine ⟨?_, r, hready, rfl⟩
  have hnodup := h.ready
  rw [hready, List.nodup_cons] at hnodup
  obtain ⟨hframe, hbytes⟩ := h.idle hs
  have hmem : ∀ k, k ∈ c.pending.erase r ↔ k ≠ r ∧ k ∈ c.pending := fun k => h.pending.mem_erase_iff
  exact { h with
    place := by
      intro k
      rw [h.place k, hs, hmem]
      by_cases hk : k = r
      · subst hk
        simp [hr]
      · have : some r ≠ some k := fun he => hk (Option.some.inj he).symm
        simp [hk, this]
    pending := h.pending.erase r
    pending_sending := fun k hk hs' => ((hmem k).mp hk).1 (Option.some.inj hs').symm
    pending_sent := fun k hk => h.pending_sent k ((hmem k).mp hk).2
    sending_sent := fun k hk hs' => h.pending_sent r hr (Option.some.inj hs' ▸ hk)
    ready := hnodup.2
    ready_pending := by
      intro k hk
      have hne : k ≠ r := fun he => hnodup.1 (he ▸ hk)
      exact (hmem k).mpr ⟨hne, h.ready_pending k (hready ▸ List.mem_cons_of_mem _ hk)⟩
    completed := by
      intro k j hj
      rw [h.completed k j hj, hready, List.mem_cons, hmem]
      tauto
    bySeq := by
      dsimp only
      have hseq : i.header.seq = seqOf c.inflights r := by simp [seqOf, hi]
      rw [h.bySeq, List.filter_map, h.pending.erase_eq_filter]
      congr 1
      -- the numbers differ: erasing by number erases `r` alone
      refine List.filter_congr fun k hk => ?_
      have hinj : seqOf c.inflights k = seqOf c.inflights r ↔ k = r :=
        ⟨fun he => List.inj_on_of_nodup_map h.seqs hk hr he, fun he => he ▸ rfl⟩
      simp only [Function.comp_apply, hseq, ne_eq, hinj, bne, decide_not, beq_eq_decide]
    seqs := h.seqs.sublist ((List.erase_sublist).map _)
    idle := by simp
    frame := by
      intro k hk
      obtain rfl := Option.some.inj hk
      refine ⟨?_, ?_⟩
      · simp [frameOf, hi]
      · dsimp only
        rw [hbytes]
        exact Nat.zero_le _
    wire := by
      dsimp only
      rw [h.wire, hframe, hbytes]
      simp }

theorem Inv.send (h : c.Inv) {n : Nat} (hs : c.sending.isSome) (hn : n ≤ c.sendFrame.length - c.sendBytes) :
    Inv { c with
      wire := c.wire ++ (c.sendFrame.drop c.sendBytes).take n
      sendBytes := c.sendBytes + n } := by
  obtain ⟨r, hr⟩ := Option.isSome_iff_exists.mp hs
  obtain ⟨hframe, hle⟩ := h.frame r hr
  exact { h with
    idle := fun hnone => by
      dsimp only at hnone
      rw [hnone] at hs
      cases hs
    frame := fun k hk => ⟨(h.frame k hk).1, by dsimp only; omega⟩
    wire := by
      dsimp only
      rw [h.wire, List.append_assoc, ← List.take_add] }

theorem Inv.sendDone (h : c.Inv) {r : Nat} (hs : c.sending = some r) (hdone : c.sendFrame.length ≤ c.sendBytes) :
    Inv { c.resetConnectionSend with sent := c.sent ++ [r] } := by
  obtain ⟨hframe, hle⟩ := h.frame r hs
  exact { h with
    place := by
      intro k
      dsimp only [resetConnectionSend]
      rw [h.place k, hs, List.mem_append, List.mem_singleton, Option.some.injEq]
      simp only [reduceCtorEq, false_or]
      tauto
    sent := h.sent.append (List.nodup_singleton _) (by simpa using fun hm => h.sending_sent r hm hs)
    pending_sending := fun _ _ hnone => by cases hnone
    pending_sent := by
      intro k hk hm
      rcases List.mem_append.mp hm with hm | hm
      · exact h.pending_sent k hk hm
      · exact h.pending_sending k hk (List.mem_singleton.mp hm ▸ hs)
    sending_sent := fun _ _ hnone => by cases hnone
    idle := fun _ => ⟨rfl, rfl⟩
    frame := fun _ hnone => by cases hnone
    wire := by
      dsimp only [resetConnectionSend]
      rw [h.wire, List.take_of_length_le hdone, hframe]
      simp }

/-- What `complete_inflight_response` leaves alone; the listener is woken if
it changes `ready`. -/
structure Completes (c c' : Conn) : Prop where
  stopping : c'.stopping = c.stopping
  pending : c'.pending = c.pending
  sending : c'.sending = c.sending
  sent : c'.sent = c.sent
  wire : c'.wire = c.wire
  bySeq : c'.inflightBySeq = c.inflightBySeq
  length : c'.inflights.length = c.inflights.length
  ready : (c'.ready = c.ready ∧ c'.wake = c.wake) ∨ c'.wake = true

theorem Completes.refl (c : Conn) : Completes c c := ⟨rfl, rfl, rfl, rfl, rfl, rfl, rfl, .inl ⟨rfl, rfl⟩⟩

theorem completeInflightResponse_completes (c : Conn) (r : Nat) (status : RawStatus) (body : Bytes) :
    Completes c (c.completeInflightResponse r status body) := by
  unfold completeInflightResponse
  dsimp only
  split
  · exact ⟨rfl, rfl, rfl, rfl, rfl, rfl, rfl, .inl ⟨rfl, rfl⟩⟩
  · split
    · exact ⟨rfl, rfl, rfl, rfl, rfl, rfl, rfl, .inl ⟨rfl, rfl⟩⟩
    · exact ⟨rfl, rfl, rfl, rfl, rfl, rfl, by simp, .inr rfl⟩

theorem callbacks_completeInflightResponse (c : Conn) (r : Nat) (status : RawStatus) (body : Bytes) :
    (c.completeInflightResponse r status body).callbacks = c.callbacks ++ [(r, status, body)] := by
  unfold completeInflightResponse
  dsimp only
  split
  · rfl
  · split <;> rfl

theorem dispatchRequest_completes (c : Conn) (r : Nat) (m : Header × Bytes) (leader : LeaderEndpoint) :
    Completes c (c.dispatchRequest r m leader) := by
  unfold dispatchRequest
  split
  · exact completeInflightResponse_completes ..
  · exact completeInflightResponse_completes ..
  · exact .refl c

theorem Inv.dispatchRequest (h : c.Inv) (hopen : c.stopping = false) {r : Nat} (hr : r < c.inflights.length)
    (m : Header × Bytes) (leader : LeaderEndpoint) : (c.dispatchRequest r m leader).Inv := by
  unfold Conn.dispatchRequest
  split
  · exact h.completeInflightResponse hopen hr _ (Nat.zero_le _)
  · exact h.completeInflightResponse hopen hr _ (leaderResponse_length leader)
  · exact h

/-- A request that is accepted. -/
theorem accept_cases {c' : Conn} {m : Header × Bytes} {leader : LeaderEndpoint} (h : c.accept m leader = some c') :
    ∃ c₁, c.enqueueInflightResponse m.1 = some c₁ ∧ c₁.stopping = false ∧ c.stopping = false ∧
      c₁.pending.length = c.pending.length + 1 ∧ c₁.sending = c.sending ∧ c₁.ready = c.ready ∧ c₁.wake = c.wake ∧
      c₁.inflights.length = c.inflights.length + 1 ∧ c₁.callbacks = c.callbacks ∧
      c' = c₁.dispatchRequest c.inflights.length m leader := by
  obtain ⟨c₁, he, rfl⟩ := Option.map_eq_some_iff.mp h
  refine ⟨c₁, he, ?_⟩
  unfold enqueueInflightResponse at he
  split at he
  · cases he
  · next hok =>
    obtain rfl := Option.some.inj he
    have hopen : c.stopping = false := by simpa using fun hs => hok (.inr (.inl hs))
    exact ⟨hopen, hopen, by simp, rfl, rfl, rfl, by simp, rfl, rfl⟩

theorem Inv.accept {c' : Conn} {m : Header × Bytes} {leader : LeaderEndpoint} (h : c.Inv)
    (ha : c.accept m leader = some c') : c'.Inv := by
  obtain ⟨c₁, he, hopen, -, -, -, -, -, hlen, -, rfl⟩ := accept_cases ha
  exact (h.enqueue he).dispatchRequest hopen (by omega) m leader

end Conn

end Fastblock.L5.Raw
