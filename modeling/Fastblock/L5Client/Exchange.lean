import Fastblock.Core.Lts
import Fastblock.L5Client.Errno
import Fastblock.L5Raw.Proto

/-!
# The exchanges of a kernel request

An exchange of an object with its OSD takes a sequence number from the
socket (kfastblock/src/connpool.c:279-289, transport.c:1276-1288), an
entry of the request's pipeline (pipeline.c:90-325) and is finished under
that number (transport.c:1454-1647). The sockets are shared with the other
requests of the volume and each has a numbering of its own, which a
reconnect starts again at 1; the pipeline belongs to the request and is
searched by the number alone.

As long as no exchange is given the number of another one that is active,
the number names its entry: `Own`. Two sockets give the same number as
soon as two objects go to two fresh connections: `two_sockets_collide`.
-/
namespace Fastblock.L5.Exchange

open Fastblock.Core Fastblock.L5.Raw

/-- `kfastblock_pipeline_entry`. -/
structure PipelineEntry where
  /-- its position in `entries` -/
  slot : Nat
  seq : UInt64 := 0
  objectIndex : Nat := 0
  lastError : Option KErrno := none
  responseBodyLen : UInt32 := 0
  transportFlags : UInt32 := 0
  responseStatus : Option KErrno := none
  service : UInt8 := 0
  opcode : UInt8 := 0
  active : Bool := false
  deriving DecidableEq, Repr

/-- `kfastblock_pipeline_state`. -/
structure Pipeline where
  freeList : List PipelineEntry
  inflightList : List PipelineEntry := []
  inflight : Nat := 0
  deriving DecidableEq, Repr

namespace Pipeline

variable (p : Pipeline)

/-- `kfastblock_pipeline_init`, also `kfastblock_pipeline_reset`. -/
def init (capacity : Nat) : Pipeline := { freeList := (List.range capacity).map fun slot => { slot } }

/-- `kfastblock_pipeline_find_locked`. -/
def findLocked (seq : UInt64) : Option PipelineEntry :=
  if seq = 0 then none else p.inflightList.find? fun e => e.active && e.seq = seq

/-- `kfastblock_pipeline_begin_exchange`. -/
def beginExchange (seq : UInt64) (objectIndex : Nat) (service opcode : UInt8) : Option PipelineEntry × Pipeline :=
  if seq = 0 then (none, p)
  else
    match p.freeList with
    | [] => (none, p)
    | free :: rest =>
      let entry : PipelineEntry := { slot := free.slot, seq, objectIndex, service, opcode, active := true }
      (some entry, { freeList := rest, inflightList := p.inflightList ++ [entry], inflight := p.inflight + 1 })

/-- `kfastblock_pipeline_finish_exchange`. -/
def finishExchange (seq : UInt64) (ret responseStatus : Option KErrno) (responseBodyLen transportFlags : UInt32) :
    Pipeline :=
  match p.findLocked seq with
  | none => p
  | some entry =>
    { inflightList := p.inflightList.filter fun e => e.slot ≠ entry.slot
      inflight := p.inflight - 1
      freeList := p.freeList ++
        [{ entry with lastError := ret, responseStatus, responseBodyLen, transportFlags, active := false }] }

end Pipeline

/-- `kfastblock_transport_exchange_ctx`. -/
structure Ctx where
  objectIndex : Nat
  service : UInt8
  opcode : UInt8
  seq : UInt64
  /-- the slot of `pipeline_entry` -/
  entry : Nat
  deriving DecidableEq, Repr

/-- `kfastblock_transport_status_to_errno` of the field of a header. -/
def errnoOfStatus (status : UInt32) : Option KErrno :=
  match status.toNat with
  | 0 => statusToErrno .ok
  | 1 => statusToErrno .invalidRequest
  | 2 => statusToErrno .notFound
  | 3 => statusToErrno .staleEpoch
  | 4 => statusToErrno .retryLater
  | 5 => statusToErrno .notLeader
  | 6 => statusToErrno .pgInitializing
  | 7 => statusToErrno .osdDown
  | _ => statusToErrno .internalError

/-- `kfastblock_transport_lookup_response_header_object`: the sequence
number and the object of a response. -/
def lookupResponseHeaderObject (p : Pipeline) (ctx : Ctx) (hdr : Header) : Except KErrno (UInt64 × Nat) :=
  if hdr.service ≠ ctx.service then .error .eproto
  else if hdr.opcode ≠ ctx.opcode then .error .eproto
  else if hdr.seq = 0 then .error .eproto
  else
    match p.findLocked hdr.seq with
    | none => .error .enoent
    | some entry => .ok (hdr.seq, entry.objectIndex)

/-- `kfastblock_transport_match_exchange_response`; `none` is 0. -/
def matchExchangeResponse (p : Pipeline) (ctx : Ctx) (hdr : Header) : Option KErrno :=
  match lookupResponseHeaderObject p ctx hdr with
  | .error e => some e
  | .ok (seq, object) =>
    if seq ≠ ctx.seq then some .eproto else if object ≠ ctx.objectIndex then some .eproto else none

/-- What `kfastblock_request_record_object_response` keeps of a response. -/
structure Response where
  status : Option KErrno := none
  bodyLen : UInt32 := 0
  flags : UInt32 := 0
  deriving DecidableEq, Repr

/-- A request with its exchanges under way, and the sockets of the
volume. -/
structure St where
  pipeline : Pipeline
  /-- `next_seq` of each cached socket -/
  nextSeq : Nat → UInt64
  /-- the exchanges that were begun and not finished -/
  active : List Ctx := []
  wireSeq : Nat → UInt64 := fun _ => 0
  response : Nat → Response := fun _ => {}

namespace St

variable (s : St)

/-- `kfastblock_osd_conn_slot_next_seq_locked`. -/
def seqOf (sock : Nat) : UInt64 := if s.nextSeq sock = 0 then 1 else s.nextSeq sock

def setNextSeq (sock : Nat) (seq : UInt64) : St := { s with nextSeq := Function.update s.nextSeq sock seq }

/-- `kfastblock_transport_prepare_object_exchange` once it has the
socket. -/
def beginExchange (sock object : Nat) (service opcode : UInt8) : St :=
  let seq := s.seqOf sock
  let s := s.setNextSeq sock (seq + 1)
  match s.pipeline.beginExchange seq object service opcode with
  | (none, _) => s
  | (some entry, pipeline) =>
    { s with
      pipeline
      active := s.active ++ [{ objectIndex := object, service, opcode, seq, entry := entry.slot }]
      wireSeq := Function.update s.wireSeq object seq }

/-- `kfastblock_transport_finish_exchange`. -/
def finishExchange (ctx : Ctx) (ret : Option KErrno) (rspHdr : Option Header) : St :=
  if ctx.seq = 0 then s
  else
    let status := match rspHdr with | none => ret | some hdr => errnoOfStatus hdr.status
    let bodyLen := match rspHdr with | none => 0 | some hdr => hdr.bodyLen
    let flags := match rspHdr with | none => 0 | some hdr => hdr.flags
    let responseSeq := match rspHdr with | none => 0 | some hdr => hdr.seq
    let object := match rspHdr.map (lookupResponseHeaderObject s.pipeline ctx) with
      | some (.ok (_, object)) => object
      | _ => ctx.objectIndex
    { s with
      response := Function.update s.response object { status, bodyLen, flags }
      pipeline := s.pipeline.finishExchange (if responseSeq = 0 then ctx.seq else responseSeq) ret status bodyLen flags
      active := s.active.erase ctx }

/-- `kfastblock_transport_complete_exchange_response` for the result and the
header of the exchange. The header is all zero if none was received. -/
def completeExchangeResponse (ctx : Ctx) (hdr : Header) (ret : Option KErrno) : Option KErrno × St :=
  let ret := (matchExchangeResponse s.pipeline ctx hdr).or ret
  (ret, s.finishExchange ctx ret (if ret.isSome then none else some hdr))

end St

inductive Label
  | connect (sock : Nat)
  | close (sock : Nat)
  /-- another request takes a number of the socket -/
  | other (sock : Nat)
  | start (sock object : Nat) (service opcode : UInt8)
  | complete (ctx : Ctx) (hdr : Header) (ret : Option KErrno)
  /-- `kfastblock_transport_abort_object_exchange` -/
  | abort (ctx : Ctx) (ret : Option KErrno)
  deriving DecidableEq, Repr

def step? (s : St) : Label → Option St
  | .connect sock => some (s.setNextSeq sock 1)
  | .close sock => some (s.setNextSeq sock 0)
  | .other sock => some (s.setNextSeq sock (s.seqOf sock + 1))
  | .start sock object service opcode => some (s.beginExchange sock object service opcode)
  | .complete ctx hdr ret => if ctx ∈ s.active then some (s.completeExchangeResponse ctx hdr ret).2 else none
  | .abort ctx ret => if ctx ∈ s.active then some (s.finishExchange ctx ret none) else none

/-- A request whose pipeline was set up, on sockets in any state. -/
def exchanges : Lts St Label where
  init s := ∃ capacity nextSeq, s = { pipeline := .init capacity, nextSeq }
  step s l s' := step? s l = some s'

def toCtx (e : PipelineEntry) : Ctx :=
  { objectIndex := e.objectIndex, service := e.service, opcode := e.opcode, seq := e.seq, entry := e.slot }

/-- No exchange is begun under the number of an entry in use. -/
def Fresh (s : St) : Label → Prop
  | .start sock _ _ _ =>
    s.pipeline.freeList ≠ [] → ∀ e ∈ s.pipeline.inflightList, e.active = true → e.seq ≠ s.seqOf sock
  | _ => True

instance (s : St) : (l : Label) → Decidable (Fresh s l)
  | .start .. => inferInstanceAs (Decidable (_ → _))
  | .connect _ | .close _ | .other _ | .complete .. | .abort .. => isTrue trivial

structure Inv (s : St) : Prop where
  slots : ((s.pipeline.inflightList ++ s.pipeline.freeList).map (·.slot)).Nodup
  live : ∀ e ∈ s.pipeline.inflightList, e.active = true ∧ e.seq ≠ 0
  seqs : (s.pipeline.inflightList.map (·.seq)).Nodup
  active : s.active = s.pipeline.inflightList.map toCtx

variable {s s' : St} {ctx : Ctx} {e : PipelineEntry}

theorem seqOf_ne_zero (s : St) (sock : Nat) : s.seqOf sock ≠ 0 := by
  unfold St.seqOf
  split
  · decide
  · assumption

theorem init_inv (capacity : Nat) (nextSeq : Nat → UInt64) : Inv { pipeline := .init capacity, nextSeq } where
  slots := by
    have hmap : ((List.range capacity).map fun slot => ({ slot } : PipelineEntry)).map (·.slot) =
        List.range capacity := by
      simp [Function.comp_def]
    change (((List.range capacity).map fun slot => ({ slot } : PipelineEntry)).map (·.slot)).Nodup
    rw [hmap]
    exact List.nodup_range
  live := by simp [Pipeline.init]
  seqs := by simp [Pipeline.init]
  active := rfl

theorem Inv.setNextSeq (h : Inv s) (sock : Nat) (seq : UInt64) : Inv (s.setNextSeq sock seq) :=
  ⟨h.slots, h.live, h.seqs, h.active⟩

/-- A finish under a header of the exchange, or without one, is a finish
under its number. -/
theorem finishExchange_eq (s : St) (ctx : Ctx) (ret : Option KErrno) {rspHdr : Option Header} (hseq : ctx.seq ≠ 0)
    (hhdr : ∀ hdr ∈ rspHdr, hdr.seq = ctx.seq) :
    ∃ status bodyLen flags response, s.finishExchange ctx ret rspHdr =
      { s with
        response
        pipeline := s.pipeline.finishExchange ctx.seq ret status bodyLen flags
        active := s.active.erase ctx } := by
  unfold St.finishExchange
  rw [if_neg hseq]
  cases rspHdr with
  | none => exact ⟨_, _, _, _, rfl⟩
  | some hdr =>
    have hne : hdr.seq ≠ 0 := by
      rw [hhdr hdr rfl]
      exact hseq
    simp only [if_neg hne]
    rw [hhdr hdr rfl]
    exact ⟨_, _, _, _, rfl⟩

namespace Inv

theorem eq_of_seq (h : Inv s) {e' : PipelineEntry} (he : e ∈ s.pipeline.inflightList)
    (he' : e' ∈ s.pipeline.inflightList) (hseq : e'.seq = e.seq) : e' = e :=
  List.inj_on_of_nodup_map h.seqs he' he hseq

theorem eq_of_slot (h : Inv s) {e' : PipelineEntry} (he : e ∈ s.pipeline.inflightList)
    (he' : e' ∈ s.pipeline.inflightList) (hslot : e'.slot = e.slot) : e' = e :=
  List.inj_on_of_nodup_map h.slots (List.mem_append_left _ he') (List.mem_append_left _ he) hslot

/-- The search by number finds the entry of the exchange. -/
theorem findLocked (h : Inv s) (he : e ∈ s.pipeline.inflightList) : s.pipeline.findLocked e.seq = some e := by
  obtain ⟨hact, hseq⟩ := h.live e he
  rw [Pipeline.findLocked, if_neg hseq]
  obtain ⟨e', hfind⟩ : ∃ e', s.pipeline.inflightList.find? (fun x => x.active && x.seq = e.seq) = some e' := by
    apply Option.isSome_iff_exists.mp
    rw [List.find?_isSome]
    exact ⟨e, he, by simp [hact]⟩
  have hprop := List.find?_some hfind
  have hmem := List.mem_of_find?_eq_some hfind
  simp only [Bool.and_eq_true, decide_eq_true_eq] at hprop
  rw [hfind, h.eq_of_seq he hmem hprop.2]

theorem begin (h : Inv s) {sock object : Nat} {service opcode : UInt8}
    (hfresh : Fresh s (.start sock object service opcode)) :
    Inv (s.beginExchange sock object service opcode) := by
  have hseq := seqOf_ne_zero s sock
  unfold St.beginExchange
  cases hfree : s.pipeline.freeList with
  | nil =>
    have hbegin : s.pipeline.beginExchange (s.seqOf sock) object service opcode = (none, s.pipeline) := by
      simp [Pipeline.beginExchange, hfree]
    simp only [St.setNextSeq, hbegin]
    exact h.setNextSeq sock _
  | cons free rest =>
    obtain ⟨entry, hentry⟩ : ∃ entry : PipelineEntry,
        entry = { slot := free.slot, seq := s.seqOf sock, objectIndex := object, service, opcode, active := true } :=
      ⟨_, rfl⟩
    have hbegin : s.pipeline.beginExchange (s.seqOf sock) object service opcode =
        (some entry, ⟨rest, s.pipeline.inflightList ++ [entry], s.pipeline.inflight + 1⟩) := by
      simp [Pipeline.beginExchange, hfree, hseq, hentry]
    simp only [St.setNextSeq, hbegin]
    refine ⟨?_, ?_, ?_, ?_⟩
    · -- the slot only moves from the head of the free list to the end of the other
      have hslots := h.slots
      rw [hfree] at hslots
      simpa [hentry] using hslots
    · intro e he
      rcases List.mem_append.mp he with he | he
      · exact h.live e he
      · obtain rfl := List.mem_singleton.mp he
        subst hentry
        exact ⟨rfl, hseq⟩
    · rw [List.map_append, List.nodup_append]
      refine ⟨h.seqs, List.nodup_singleton _, ?_⟩
      intro a ha b hb hab
      obtain ⟨e, he, rfl⟩ := List.mem_map.mp ha
      obtain rfl := List.mem_singleton.mp hb
      have hne := hfresh (by rw [hfree]; exact List.cons_ne_nil _ _) e he (h.live e he).1
      exact hne (by rw [hab, hentry])
    · simp [h.active, toCtx, hentry]

/-- Finishing under the number of an entry takes that entry from the one
list to the other. -/
theorem pipeline_finish (h : Inv s) (he : e ∈ s.pipeline.inflightList) (ret status : Option KErrno)
    (bodyLen flags : UInt32) :
    (s.pipeline.finishExchange e.seq ret status bodyLen flags).inflightList =
        s.pipeline.inflightList.filter (fun x => x.slot ≠ e.slot) ∧
      (s.pipeline.finishExchange e.seq ret status bodyLen flags).freeList.map (·.slot) =
        s.pipeline.freeList.map (·.slot) ++ [e.slot] := by
  rw [Pipeline.finishExchange, h.findLocked he]
  exact ⟨rfl, by simp⟩

/-- The exchanges without the one of an entry are those of the other
entries. -/
theorem erase_toCtx (h : Inv s) (he : e ∈ s.pipeline.inflightList) :
    s.active.erase (toCtx e) = (s.pipeline.inflightList.filter fun x => x.slot ≠ e.slot).map toCtx := by
  have hnodup : (s.pipeline.inflightList.map toCtx).Nodup := by
    refine List.Nodup.of_map (fun c : Ctx => c.seq) ?_
    rw [List.map_map]
    exact h.seqs
  rw [h.active, hnodup.erase_eq_filter, List.filter_map]
  congr 1
  apply List.filter_congr
  intro x hx
  rw [Function.comp_apply, bne, beq_eq_decide, ← decide_not, decide_eq_decide, not_iff_not]
  refine ⟨fun heq => congrArg Ctx.entry heq, fun hslot => ?_⟩
  rw [h.eq_of_slot he hx hslot]

theorem remove (h : Inv s) (he : e ∈ s.pipeline.inflightList) {p : Pipeline} (response : Nat → Response)
    (hin : p.inflightList = s.pipeline.inflightList.filter (fun x => x.slot ≠ e.slot))
    (hfree : p.freeList.map (·.slot) = s.pipeline.freeList.map (·.slot) ++ [e.slot]) :
    Inv { s with response, pipeline := p, active := s.active.erase (toCtx e) } := by
  refine ⟨?_, ?_, ?_, ?_⟩
  · change (List.map _ (p.inflightList ++ p.freeList)).Nodup
    rw [hin, List.map_append, hfree]
    have hslots := h.slots
    rw [List.map_append, List.nodup_append] at hslots
    obtain ⟨hnin, hnfree, hdisj⟩ := hslots
    have hsub : List.Sublist ((s.pipeline.inflightList.filter fun x => x.slot ≠ e.slot).map (·.slot))
        (s.pipeline.inflightList.map (·.slot)) := List.filter_sublist.map _
    have heslot : e.slot ∈ s.pipeline.inflightList.map (·.slot) := List.mem_map_of_mem he
    rw [List.nodup_append, List.nodup_append]
    refine ⟨hnin.sublist hsub, ⟨hnfree, List.nodup_singleton _, ?_⟩, ?_⟩
    · intro a ha b hb hab
      obtain rfl := List.mem_singleton.mp hb
      exact hdisj _ heslot _ ha hab.symm
    · intro a ha b hb hab
      rcases List.mem_append.mp hb with hb | hb
      · exact hdisj _ (hsub.subset ha) _ hb hab
      · obtain ⟨x, hx, rfl⟩ := List.mem_map.mp ha
        have hne := (List.mem_filter.mp hx).2
        simp only [decide_eq_true_eq] at hne
        exact hne (hab.trans (List.mem_singleton.mp hb))
  · intro x hx
    change x ∈ p.inflightList at hx
    rw [hin] at hx
    exact h.live x (List.mem_filter.mp hx).1
  · change (List.map _ p.inflightList).Nodup
    rw [hin]
    exact h.seqs.sublist (List.filter_sublist.map _)
  · change s.active.erase (toCtx e) = List.map toCtx p.inflightList
    rw [hin, h.erase_toCtx he]

theorem finish (h : Inv s) (he : e ∈ s.pipeline.inflightList) (ret : Option KErrno) {rspHdr : Option Header}
    (hhdr : ∀ hdr ∈ rspHdr, hdr.seq = e.seq) : Inv (s.finishExchange (toCtx e) ret rspHdr) ∧
      (s.finishExchange (toCtx e) ret rspHdr).pipeline.inflightList =
        s.pipeline.inflightList.filter (fun x => x.slot ≠ e.slot) ∧
      (s.finishExchange (toCtx e) ret rspHdr).pipeline.freeList.map (·.slot) =
        s.pipeline.freeList.map (·.slot) ++ [e.slot] := by
  obtain ⟨status, bodyLen, flags, response, heq⟩ := finishExchange_eq s (toCtx e) ret (h.live e he).2 hhdr
  rw [heq]
  obtain ⟨hin, hfree⟩ := h.pipeline_finish he ret status bodyLen flags
  exact ⟨h.remove he response hin hfree, hin, hfree⟩

end Inv

theorem seq_of_match {p : Pipeline} {hdr : Header} (h : matchExchangeResponse p ctx hdr = none) :
    hdr.seq = ctx.seq := by
  unfold matchExchangeResponse at h
  split at h
  · cases h
  · next seq object hlookup =>
    have hseq : hdr.seq = seq := by
      unfold lookupResponseHeaderObject at hlookup
      split_ifs at hlookup
      split at hlookup
      · cases hlookup
      · exact congrArg Prod.fst (Except.ok.inj hlookup)
    split_ifs at h with hne
    rw [hseq, not_not.mp hne]

/-- A header is handed on to the finish only if it carries the number of the
exchange. -/
theorem complete_header {hdr : Header} {ret : Option KErrno} :
    ∀ hdr' ∈ (if ((matchExchangeResponse s.pipeline ctx hdr).or ret).isSome then none else some hdr),
      hdr'.seq = ctx.seq := by
  intro hdr' hmem
  split_ifs at hmem with hret
  · cases hmem
  obtain rfl := Option.some.inj hmem
  have hnone := Option.not_isSome_iff_eq_none.mp hret
  exact seq_of_match (Option.or_eq_none_iff.mp hnone).1

theorem inv_inductive : (exchanges.restrict Fresh).Inductive Inv := by
  refine ⟨?_, ?_⟩
  · intro s ⟨capacity, nextSeq, hs⟩
    rw [hs]
    exact init_inv capacity nextSeq
  · intro s l s' h ⟨hfresh, hstep⟩
    cases l with
    | connect sock | close sock | other sock =>
      obtain rfl := Option.some.inj hstep
      exact h.setNextSeq sock _
    | start sock object service opcode =>
      obtain rfl := Option.some.inj hstep
      exact h.begin hfresh
    | complete ctx hdr ret =>
      obtain ⟨hmem, heq⟩ := Option.ite_none_right_eq_some.mp hstep
      obtain rfl := Option.some.inj heq
      rw [h.active] at hmem
      obtain ⟨e, he, rfl⟩ := List.mem_map.mp hmem
      exact (h.finish he _ complete_header).1
    | abort ctx ret =>
      obtain ⟨hmem, heq⟩ := Option.ite_none_right_eq_some.mp hstep
      obtain rfl := Option.some.inj heq
      rw [h.active] at hmem
      obtain ⟨e, he, rfl⟩ := List.mem_map.mp hmem
      exact (h.finish he ret (by simp)).1

/-- The number of the exchange names its entry and no other, a response that
carries it is matched to the object of the exchange, and finishing it, in
whatever way, releases its entry and no other. -/
structure Own (s : St) (ctx : Ctx) : Prop where
  entry : ∃ e, s.pipeline.inflightList.filter (fun x => x.active && x.seq = ctx.seq) = [e] ∧
    e.slot = ctx.entry ∧ e.objectIndex = ctx.objectIndex
  matched : ∀ hdr : Header, hdr.service = ctx.service → hdr.opcode = ctx.opcode → hdr.seq = ctx.seq →
    matchExchangeResponse s.pipeline ctx hdr = none ∧ (s.completeExchangeResponse ctx hdr none).1 = none
  released : ∀ l s', (∃ hdr ret, l = Label.complete ctx hdr ret) ∨ (∃ ret, l = Label.abort ctx ret) →
    step? s l = some s' →
    s'.pipeline.inflightList = s.pipeline.inflightList.filter (fun x => x.slot ≠ ctx.entry) ∧
      s'.pipeline.freeList.map (·.slot) = s.pipeline.freeList.map (·.slot) ++ [ctx.entry]

theorem Inv.filter_seq (h : Inv s) (he : e ∈ s.pipeline.inflightList) :
    s.pipeline.inflightList.filter (fun x => x.active && x.seq = e.seq) = [e] := by
  have hnodup : s.pipeline.inflightList.Nodup := h.seqs.of_map
  have heq : s.pipeline.inflightList.filter (fun x => x.active && x.seq = e.seq) =
      s.pipeline.inflightList.filter (· == e) := by
    apply List.filter_congr
    intro x hx
    have hact := (h.live x hx).1
    rw [hact, Bool.true_and, beq_eq_decide, decide_eq_decide]
    exact ⟨h.eq_of_seq he hx, congrArg PipelineEntry.seq⟩
  rw [heq, List.filter_beq, List.count_eq_one_of_mem hnodup he, List.replicate_one]

theorem Inv.matchExchangeResponse (h : Inv s) (he : e ∈ s.pipeline.inflightList) {hdr : Header}
    (hservice : hdr.service = e.service) (hopcode : hdr.opcode = e.opcode) (hseq : hdr.seq = e.seq) :
    matchExchangeResponse s.pipeline (toCtx e) hdr = none := by
  have hlookup : lookupResponseHeaderObject s.pipeline (toCtx e) hdr = .ok (e.seq, e.objectIndex) := by
    simp [lookupResponseHeaderObject, toCtx, hservice, hopcode, hseq, (h.live e he).2, h.findLocked he]
  rw [Exchange.matchExchangeResponse, hlookup]
  change (if e.seq ≠ e.seq then _ else if e.objectIndex ≠ e.objectIndex then _ else _) = _
  rw [if_neg (by simp), if_neg (by simp)]

theorem Inv.own (h : Inv s) (hctx : ctx ∈ s.active) : Own s ctx := by
  have hmem := hctx
  rw [h.active] at hmem
  obtain ⟨e, he, rfl⟩ := List.mem_map.mp hmem
  refine ⟨⟨e, h.filter_seq he, rfl, rfl⟩, ?_, ?_⟩
  · intro hdr hservice hopcode hseq
    have hmatch := h.matchExchangeResponse he hservice hopcode hseq
    refine ⟨hmatch, ?_⟩
    simp only [St.completeExchangeResponse, hmatch, Option.or_none]
  · rintro l s' (⟨hdr, ret, rfl⟩ | ⟨ret, rfl⟩) hstep
    · obtain ⟨-, heq⟩ := Option.ite_none_right_eq_some.mp hstep
      obtain rfl := Option.some.inj heq
      exact (h.finish he _ complete_header).2
    · obtain ⟨-, heq⟩ := Option.ite_none_right_eq_some.mp hstep
      obtain rfl := Option.some.inj heq
      exact (h.finish he ret (by simp)).2

/-- In every run in which no exchange is begun under a number in use. -/
theorem responses_match_own (s : St) (h : (exchanges.restrict Fresh).Reachable s) : ∀ ctx ∈ s.active, Own s ctx :=
  fun _ hctx => (inv_inductive.reachable h).own hctx

/-- Two objects on two new connections. -/
def pair : St := { pipeline := .init 2, nextSeq := fun _ => 1 }

def okHeader (opcode : UInt8) (seq : UInt64) : Header :=
  { magic := 0, versionMajor := 0, versionMinor := 0, service := 2, opcode, flags := 0, seq,
    status := 0, bodyLen := 0 }

def startBoth (sock : Nat) : St := (pair.beginExchange 0 0 2 3).beginExchange sock 1 2 3

theorem pair_reachable {G : St → Label → Prop} : (exchanges.restrict G).Reachable pair := by
  have hinit : (exchanges.restrict G).init pair := ⟨2, _, rfl⟩
  exact .of_init hinit

/-- Both objects on one socket. -/
theorem responses_match_own_one_socket : Own (startBoth 0) ⟨1, 2, 3, 2, 1⟩ := by
  have h0 : (exchanges.restrict Fresh).Reachable pair := pair_reachable
  have h1 : (exchanges.restrict Fresh).Reachable (pair.beginExchange 0 0 2 3) :=
    h0.step (l := .start 0 0 2 3) ⟨by decide, rfl⟩
  have h2 : (exchanges.restrict Fresh).Reachable (startBoth 0) := h1.step (l := .start 0 1 2 3) ⟨by decide, rfl⟩
  exact responses_match_own (startBoth 0) h2 _ (by decide)

/-- On two sockets both get number 1: the response to object 1 is not
matched, and finishing the exchange of object 1 releases the entry of
object 0. -/
theorem two_sockets_collide :
    exchanges.Reachable (startBoth 1) ∧ (startBoth 1).active = [⟨0, 2, 3, 1, 0⟩, ⟨1, 2, 3, 1, 1⟩] ∧
      (startBoth 1).completeExchangeResponse ⟨1, 2, 3, 1, 1⟩ (okHeader 3 1) none =
        (some .eproto, (startBoth 1).finishExchange ⟨1, 2, 3, 1, 1⟩ (some .eproto) none) ∧
      ((startBoth 1).finishExchange ⟨1, 2, 3, 1, 1⟩ (some .eproto) none).pipeline.inflightList.map (·.objectIndex) =
        [1] := by
  have h0 : (exchanges.restrict fun _ _ => True).Reachable pair := pair_reachable
  have h1 : exchanges.Reachable (pair.beginExchange 0 0 2 3) := h0.of_restrict.step (l := .start 0 0 2 3) rfl
  have h2 : exchanges.Reachable (startBoth 1) := h1.step (l := .start 1 1 2 3) rfl
  refine ⟨h2, by decide, ?_, by decide⟩
  have hmatch : matchExchangeResponse (startBoth 1).pipeline ⟨1, 2, 3, 1, 1⟩ (okHeader 3 1) = some .eproto := by decide
  simp only [St.completeExchangeResponse, hmatch, Option.some_or, Option.isSome_some, if_true]

end Fastblock.L5.Exchange
