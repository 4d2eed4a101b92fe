import Fastblock.Core.Memcpy
import Fastblock.L5Raw.Codecs

/-!
# Receiving a request in pieces

`try_receive_one_request` (src/osd/raw_tcp_server.cc:859-963) reads from a
socket that does not block. It keeps the bytes of an unfinished request in
`recv_frame` with three counters, returns 0 when the socket has nothing
more, and goes on from there when it is called again.

A socket is the list of what its next calls of `recv` meet.

* `Holds`: what `recv_frame` and the counters say about the part of a
  request that has come.
* `Outcome`: one call returns the first request, or holds a part of it
  and waits for more.
* `framing_exact`: however the bytes of a sequence of requests are cut
  into pieces (`Cuts`), the calls return exactly these requests, in
  order. Their headers are valid and tell the lengths of their bodies
  (`ValidRequest`).
-/
namespace Fastblock.L5.Raw

open Fastblock.Core

/-- What `recv` meets: a piece of the stream, of which it takes as much as
fits (an empty one is the end of the stream), or an error. Behind the last
piece it would block. -/
inductive Recv
  | data (bs : Bytes)
  | wouldBlock
  | interrupted
  | failed (errno : Nat)
  deriving DecidableEq, Repr

def econnreset : Nat := 104
def eproto : Nat := 71

/-- What `fill_connection_frame` returns and leaves behind. -/
structure Fill where
  ret : Int
  frame : Bytes
  completed : Nat
  rest : List Recv
  deriving DecidableEq, Repr

/-- `fill_connection_frame` for the `target` bytes at `off` in the frame. -/
def fillConnectionFrame (off target : Nat) : List Recv → Bytes → Nat → Fill
  | evs, frame, completed =>
    if completed < target then
      match evs with
      | [] => ⟨0, frame, completed, []⟩
      | .wouldBlock :: evs => ⟨0, frame, completed, evs⟩
      | .interrupted :: evs => fillConnectionFrame off target evs frame completed
      | .failed errno :: evs => ⟨-errno, frame, completed, evs⟩
      | .data bs :: evs =>
        if bs = [] then ⟨-econnreset, frame, completed, evs⟩
        else if bs.length ≤ target - completed then
          fillConnectionFrame off target evs (memcpy frame (off + completed) bs) (completed + bs.length)
        else
          -- more than is missing: `recv` takes a part, and the loop ends
          ⟨1, memcpy frame (off + completed) (bs.take (target - completed)), target,
            .data (bs.drop (target - completed)) :: evs⟩
    else ⟨1, frame, completed, evs⟩

/-- The fields of `connection_context` for receiving; the default is the
state after `reset_connection_frame`. -/
structure RecvFrame where
  frame : Bytes := []
  headerBytes : Nat := 0
  bodyBytes : Nat := 0
  targetBodyBytes : Nat := 0
  deriving DecidableEq, Repr

structure Received where
  ret : Int
  out : Option (Header × Bytes)
  conn : RecvFrame
  rest : List Recv
  deriving DecidableEq, Repr

/-- `memcpy` of the first 28 bytes. -/
def Header.ofBytes (bs : Bytes) : Header :=
  match Header.read.run bs with
  | some (h, _) => h
  | none => default

/-- `std::vector::resize`. -/
def resize (bs : Bytes) (n : Nat) : Bytes := bs.take n ++ List.replicate (n - bs.length) 0

/-- The second half of `try_receive_one_request`. -/
def receiveBody (c : RecvFrame) (evs : List Recv) : Received :=
  let f := fillConnectionFrame 28 c.targetBodyBytes evs c.frame c.bodyBytes
  if f.ret ≤ 0 then ⟨f.ret, none, { c with frame := f.frame, bodyBytes := f.completed }, f.rest⟩
  else ⟨1, some (Header.ofBytes f.frame, f.frame.drop 28), {}, f.rest⟩

def tryReceiveOneRequest (c : RecvFrame) (evs : List Recv) : Received :=
  let c := if c.frame = [] then { c with frame := List.replicate 28 0 } else c
  if c.headerBytes < 28 then
    let f := fillConnectionFrame 0 28 evs c.frame c.headerBytes
    let c := { c with frame := f.frame, headerBytes := f.completed }
    if f.ret ≤ 0 then ⟨f.ret, none, c, f.rest⟩
    else
      let h := Header.ofBytes c.frame
      if !validateRequestHeader h then ⟨-eproto, none, {}, f.rest⟩
      else if h.bodyLen.toNat = 0 then ⟨1, some (h, []), {}, f.rest⟩
      else
        receiveBody { c with targetBodyBytes := h.bodyLen.toNat, frame := resize c.frame (28 +
          h.bodyLen.toNat) } f.rest
  else receiveBody c evs

/-- The results of the next `n` calls. -/
def receives : Nat → RecvFrame → List Recv → List Received
  | 0, _, _ => []
  | n + 1, c, evs =>
    let r := tryReceiveOneRequest c evs
    r :: receives n r.conn r.rest

/-! ## Messages and the ways to cut them -/

/-- A request that the OSD accepts as such: a valid header and a body as
long as it says. -/
def ValidRequest (m : Header × Bytes) : Prop := validateRequestHeader m.1 = true ∧ m.2.length = m.1.bodyLen.toNat

def requestBytes (m : Header × Bytes) : Bytes := m.1.bytes ++ m.2

/-- The bytes of a piece. -/
def Recv.bytes : Recv → Bytes
  | .data bs => bs
  | _ => []

/-- A piece of a stream that neither ends nor fails. -/
def Recv.Clean : Recv → Prop
  | .data bs => bs ≠ []
  | .wouldBlock | .interrupted => True
  | .failed _ => False

/-- The socket delivers `bs`, cut in some way. -/
structure Cuts (evs : List Recv) (bs : Bytes) : Prop where
  clean : ∀ ev ∈ evs, ev.Clean
  bytes : evs.flatMap Recv.bytes = bs

/-! ## Filling a frame -/

/-- What a call of `fill_connection_frame` did with the pieces `evs`: it
took `got`, and it stopped because the frame is full or because the socket
would block. -/
structure Filled (off target : Nat) (evs : List Recv) (frame : Bytes) (completed : Nat) (f : Fill) (got : Bytes) :
    Prop where
  frame : f.frame = memcpy frame (off + completed) got
  completed : f.completed = completed + got.length
  rest : Cuts f.rest (f.rest.flatMap Recv.bytes)
  bytes : evs.flatMap Recv.bytes = got ++ f.rest.flatMap Recv.bytes
  le : f.rest.length ≤ evs.length
  stop : (f.ret = 1 ∧ f.completed = target) ∨
    (f.ret = 0 ∧ f.completed < target ∧ (f.rest.length < evs.length ∨ f.rest = []))

/-- One piece, that is taken whole, comes before the rest. -/
theorem Filled.cons {off target completed : Nat} (ev : Recv) {evs : List Recv} {frame : Bytes} {f : Fill} {got : Bytes}
    (hfit : off + completed + ev.bytes.length ≤ frame.length)
    (h : Filled off target evs (memcpy frame (off + completed) ev.bytes) (completed + ev.bytes.length) f got) :
    Filled off target (ev :: evs) frame completed f (ev.bytes ++ got) where
  frame := by rw [h.frame, ← Nat.add_assoc, memcpy_memcpy (Nat.le_of_add_right_le hfit)]
  completed := by rw [h.completed, List.length_append, Nat.add_assoc]
  rest := h.rest
  bytes := by rw [List.flatMap_cons, h.bytes, List.append_assoc]
  le := Nat.le_succ_of_le h.le
  stop := by
    rcases h.stop with hfull | ⟨hret, hlt, hless | hnil⟩
    · exact .inl hfull
    · exact .inr ⟨hret, hlt, .inl (Nat.lt_succ_of_lt hless)⟩
    · exact .inr ⟨hret, hlt, .inr hnil⟩

theorem fillConnectionFrame_filled (off target : Nat) {evs : List Recv} {frame : Bytes} {completed : Nat}
    (hclean : ∀ ev ∈ evs, ev.Clean) (hlen : off + target ≤ frame.length) (hc : completed ≤ target) :
    ∃ got, Filled off target evs frame completed (fillConnectionFrame off target evs frame completed) got := by
  -- along the pieces; the frame and the count are those of the loop so far
  induction evs generalizing frame completed with
  | nil =>
    refine ⟨[], ?_⟩
    unfold fillConnectionFrame
    split
    · next hlt => exact ⟨(memcpy_nil _ _).symm, rfl, ⟨by simp, rfl⟩, rfl, Nat.le_refl _, .inr ⟨rfl, hlt, .inr rfl⟩⟩
    · exact ⟨(memcpy_nil _ _).symm, rfl, ⟨by simp, rfl⟩, rfl, Nat.le_refl _, .inl ⟨rfl, by dsimp only; omega⟩⟩
  | cons ev evs ih =>
    have hcuts : ∀ e ∈ evs, e.Clean := fun e he => hclean e (List.mem_cons_of_mem _ he)
    unfold fillConnectionFrame
    by_cases hlt : completed < target
    · rw [if_pos hlt]
      cases ev with
      | wouldBlock =>
        exact ⟨[], (memcpy_nil _ _).symm, rfl, ⟨hcuts, rfl⟩, rfl, Nat.le_succ _,
          .inr ⟨rfl, hlt, .inl (Nat.lt_succ_self _)⟩⟩
      | interrupted =>
        obtain ⟨got, hgot⟩ := ih hcuts hlen hc
        have hfit : off + completed + ([] : Bytes).length ≤ frame.length := by rw [List.length_nil]; omega
        refine ⟨got, .cons .interrupted hfit ?_⟩
        change Filled off target evs (memcpy frame (off + completed) []) completed _ got
        rw [memcpy_nil]
        exact hgot
      | failed errno => exact (hclean _ List.mem_cons_self).elim
      | data bs =>
        have hbs : bs ≠ [] := hclean (.data bs) List.mem_cons_self
        dsimp only
        rw [if_neg hbs]
        by_cases hfit : bs.length ≤ target - completed
        · rw [if_pos hfit]
          have hw : off + completed + bs.length ≤ frame.length := by omega
          obtain ⟨got, hgot⟩ := @ih (memcpy frame (off + completed) bs) (completed + bs.length) hcuts
            (by rw [length_memcpy hw]; exact hlen) (by omega)
          exact ⟨bs ++ got, .cons (.data bs) hw hgot⟩
        · rw [if_neg hfit]
          refine ⟨bs.take (target - completed), rfl, ?_, ⟨?_, rfl⟩, ?_, Nat.le_refl _, .inl ⟨rfl, rfl⟩⟩
          · simp only [List.length_take]
            omega
          · intro e he
            rcases List.mem_cons.mp he with rfl | he
            · exact fun h => by simp [List.drop_eq_nil_iff] at h; omega
            · exact hcuts e he
          · simp only [List.flatMap_cons, Recv.bytes]
            rw [← List.append_assoc, List.take_append_drop]
    · rw [if_neg hlt]
      exact ⟨[], (memcpy_nil _ _).symm, rfl, ⟨hclean, rfl⟩, rfl, Nat.le_refl _, .inl ⟨rfl, by dsimp only; omega⟩⟩

/-! ## One call -/

theorem Header.ofBytes_append (h : Header) (bs : Bytes) : Header.ofBytes (h.bytes ++ bs) = h := by
  rw [Header.ofBytes, h.reads bs]

theorem requestBytes_length (m : Header × Bytes) : (requestBytes m).length = 28 + m.2.length := by
  simp [requestBytes]

/-- The bytes of the next request that a frame holds: nothing, a part of the
header, or the header and a part of the body. -/
inductive Holds : RecvFrame → Bytes → Prop
  | idle : Holds {} []
  | header {c : RecvFrame} {got : Bytes} (hlen : c.frame.length = 28) (hgot : c.frame.take got.length = got)
      (hlt : got.length < 28) (hheader : c.headerBytes = got.length) (hbody : c.bodyBytes = 0) : Holds c got
  | body {c : RecvFrame} {h : Header} {got : Bytes} (hvalid : validateRequestHeader h = true)
      (hlen : c.frame.length = 28 + h.bodyLen.toNat) (hgot : c.frame.take (28 + got.length) = h.bytes ++ got)
      (hlt : got.length < h.bodyLen.toNat) (hheader : c.headerBytes = 28) (hbody : c.bodyBytes = got.length)
      (htarget : c.targetBodyBytes = h.bodyLen.toNat) : Holds c (h.bytes ++ got)

/-- What a call that starts with the bytes `got` of the requests `ms`
does: it waits for more of the first one, or it returns it. -/
inductive Outcome (evs : List Recv) (ms : List (Header × Bytes)) (r : Received) : Prop
  | more (got : Bytes) (hret : r.ret = 0) (hout : r.out = none) (hholds : Holds r.conn got)
      (hclean : ∀ ev ∈ r.rest, ev.Clean) (hbytes : got ++ r.rest.flatMap Recv.bytes = ms.flatMap requestBytes)
      (hless : r.rest.length < evs.length ∨ r.rest = [])
  | one (m : Header × Bytes) (ms' : List (Header × Bytes)) (hms : ms = m :: ms') (hret : r.ret = 1)
      (hout : r.out = some m) (hconn : r.conn = {}) (hclean : ∀ ev ∈ r.rest, ev.Clean)
      (hbytes : r.rest.flatMap Recv.bytes = ms'.flatMap requestBytes) (hle : r.rest.length ≤ evs.length)

/-- Whole headers of the stream are headers of its requests. -/
theorem first_request {ms : List (Header × Bytes)} {h : Header} {bs : Bytes}
    (hb : h.bytes ++ bs = ms.flatMap requestBytes) :
    ∃ m ms', ms = m :: ms' ∧ m.1 = h ∧ bs = m.2 ++ ms'.flatMap requestBytes := by
  cases ms with
  | nil =>
    have := congrArg List.length hb
    simp at this
  | cons m ms =>
    rw [List.flatMap_cons, requestBytes, List.append_assoc] at hb
    obtain ⟨hh, hrest⟩ := List.append_inj hb (by simp)
    have := Header.ofBytes_append h []
    rw [hh, Header.ofBytes_append m.1 []] at this
    exact ⟨m, ms, rfl, this, hrest⟩

/-- Receiving the body, from the bytes `got` of it on. -/
theorem receiveBody_outcome {c : RecvFrame} {evs : List Recv} {ms : List (Header × Bytes)} {h : Header} {got : Bytes}
    (hms : ∀ m ∈ ms, ValidRequest m) (hclean : ∀ ev ∈ evs, ev.Clean) (hvalid : validateRequestHeader h = true)
    (hlen : c.frame.length = 28 + h.bodyLen.toNat) (hgot : c.frame.take (28 + got.length) = h.bytes ++ got)
    (hlt : got.length < h.bodyLen.toNat) (hheader : c.headerBytes = 28) (hbody : c.bodyBytes = got.length)
    (htarget : c.targetBodyBytes = h.bodyLen.toNat)
    (hbytes : h.bytes ++ got ++ evs.flatMap Recv.bytes = ms.flatMap requestBytes) :
    Outcome evs ms (receiveBody c evs) := by
  obtain ⟨new, hf⟩ := fillConnectionFrame_filled 28 h.bodyLen.toNat hclean (Nat.le_of_eq hlen.symm) hlt.le
  obtain ⟨m, ms', rfl, rfl, hrest⟩ := first_request (by rw [← List.append_assoc]; exact hbytes)
  have hm := hms m List.mem_cons_self
  unfold receiveBody
  rw [htarget, hbody]
  generalize fillConnectionFrame 28 m.1.bodyLen.toNat evs c.frame got.length = f at hf ⊢
  have hfit : got.length + new.length ≤ m.1.bodyLen.toNat := by
    have := hf.completed
    rcases hf.stop with h | h <;> omega
  have hframe : f.frame.take (28 + (got ++ new).length) = m.1.bytes ++ (got ++ new) := by
    rw [hf.frame, List.length_append, ← Nat.add_assoc, take_memcpy (by omega), hgot, List.append_assoc]
  have hflen : f.frame.length = 28 + m.1.bodyLen.toNat := by
    rw [hf.frame, length_memcpy (by omega), hlen]
  rw [hf.bytes] at hrest
  rcases hf.stop with ⟨hret, hdone⟩ | ⟨hret, hdone, hless⟩
  · -- the body is complete: it is the body of the first request
    have hnew : (got ++ new).length = m.2.length := by
      rw [List.length_append, hm.2, ← hf.completed, hdone]
    obtain ⟨hb, hrest⟩ := List.append_inj ((List.append_assoc _ _ _).trans hrest) hnew
    have hall : f.frame = m.1.bytes ++ m.2 := by
      rw [← hb, ← hframe, List.take_of_length_le]
      rw [hflen, hnew, hm.2]
    dsimp only
    rw [if_neg (by omega)]
    refine .one m ms' rfl rfl ?_ rfl hf.rest.clean hrest hf.le
    dsimp only
    rw [hall, Header.ofBytes_append, List.drop_left' (by simp)]
  · dsimp only
    rw [if_pos (by omega)]
    refine .more (m.1.bytes ++ (got ++ new)) hret rfl ?_ hf.rest.clean ?_ hless
    · refine .body hvalid hflen hframe ?_ hheader ?_ rfl
      · have := hf.completed
        rw [List.length_append]
        omega
      · rw [List.length_append]
        exact hf.completed
    · dsimp only
      rw [List.flatMap_cons, requestBytes, List.append_assoc, List.append_assoc, List.append_assoc, hrest]

theorem Outcome.mono {evs evs' : List Recv} {ms : List (Header × Bytes)} {r : Received} (h : Outcome evs ms r)
    (hle : evs.length ≤ evs'.length) : Outcome evs' ms r := by
  cases h with
  | more got hret hout hholds hclean hbytes hless =>
    exact .more got hret hout hholds hclean hbytes (hless.imp_left fun h => Nat.lt_of_lt_of_le h hle)
  | one m ms' hms hret hout hconn hclean hbytes hle' =>
    exact .one m ms' hms hret hout hconn hclean hbytes (Nat.le_trans hle' hle)

/-- A stream with 28 bytes starts with the header of its first request. -/
theorem first_header {ms : List (Header × Bytes)} {hb bs : Bytes} (hlen : hb.length = 28)
    (h : hb ++ bs = ms.flatMap requestBytes) : ∃ m ms', ms = m :: ms' ∧ hb = m.1.bytes := by
  cases ms with
  | nil =>
    have := congrArg List.length h
    simp [hlen] at this
  | cons m ms =>
    rw [List.flatMap_cons, requestBytes, List.append_assoc] at h
    exact ⟨m, ms, rfl, (List.append_inj h (by simp [hlen])).1⟩

/-- A call that finds a part of the header. -/
theorem receiveHeader_outcome {c : RecvFrame} {evs : List Recv} {ms : List (Header × Bytes)} {got : Bytes}
    (hms : ∀ m ∈ ms, ValidRequest m) (hclean : ∀ ev ∈ evs, ev.Clean) (hlen : c.frame.length = 28)
    (hgot : c.frame.take got.length = got) (hlt : got.length < 28) (hheader : c.headerBytes = got.length)
    (hbody : c.bodyBytes = 0) (hbytes : got ++ evs.flatMap Recv.bytes = ms.flatMap requestBytes) :
    Outcome evs ms (tryReceiveOneRequest c evs) := by
  have hroom : 0 + 28 ≤ c.frame.length := by omega
  obtain ⟨new, hf⟩ := fillConnectionFrame_filled 0 28 hclean hroom hlt.le
  have hne : c.frame ≠ [] := fun h => by simp [h] at hlen
  unfold tryReceiveOneRequest
  rw [if_neg hne, if_pos (by omega), hheader]
  generalize fillConnectionFrame 0 28 evs c.frame got.length = f at hf ⊢
  have hfit : got.length + new.length ≤ 28 := by
    have := hf.completed
    rcases hf.stop with h | h <;> omega
  have hframe : f.frame.take (got ++ new).length = got ++ new := by
    rw [hf.frame, List.length_append, Nat.zero_add, take_memcpy (by omega), hgot]
  have hflen : f.frame.length = 28 := by rw [hf.frame, length_memcpy (by omega), hlen]
  rw [hf.bytes, ← List.append_assoc] at hbytes
  rcases hf.stop with ⟨hret, hdone⟩ | ⟨hret, hdone, hless⟩
  swap
  · dsimp only
    rw [if_pos (by omega)]
    refine .more (got ++ new) hret rfl (.header hflen hframe ?_ ?_ hbody) hf.rest.clean hbytes hless
    · rw [List.length_append, ← hf.completed]
      exact hdone
    · rw [List.length_append]
      exact hf.completed
  -- the header is complete: it is the header of the first request
  have hfull : (got ++ new).length = 28 := by rw [List.length_append, ← hf.completed, hdone]
  obtain ⟨m, ms', rfl, hhb⟩ := first_header hfull hbytes
  have hm := hms m List.mem_cons_self
  have hall : f.frame = m.1.bytes := by
    rw [← hhb, ← hframe, List.take_of_length_le (by omega)]
  have hof : Header.ofBytes f.frame = m.1 := by
    rw [hall, ← List.append_nil m.1.bytes, Header.ofBytes_append]
  dsimp only
  rw [if_neg (by omega), hof, hm.1]
  simp only [Bool.not_true, Bool.false_eq_true, if_false]
  have hrest : f.rest.flatMap Recv.bytes = m.2 ++ ms'.flatMap requestBytes := by
    rw [List.flatMap_cons, requestBytes, hhb, List.append_assoc] at hbytes
    exact List.append_cancel_left hbytes
  by_cases hzero : m.1.bodyLen.toNat = 0
  · rw [if_pos hzero]
    have hnil : m.2 = [] := List.length_eq_zero_iff.mp (hm.2.trans hzero)
    refine .one m ms' rfl rfl (by rw [← hnil]) rfl hf.rest.clean ?_ hf.le
    rw [hrest, hnil, List.nil_append]
  · rw [if_neg hzero]
    have hsize : resize f.frame (28 + m.1.bodyLen.toNat) = m.1.bytes ++ List.replicate m.1.bodyLen.toNat 0 := by
      rw [resize, hflen, Nat.add_sub_cancel_left, List.take_of_length_le (by omega), hall]
    refine Outcome.mono (@receiveBody_outcome _ _ _ _ [] hms hf.rest.clean hm.1 ?_ ?_ (Nat.pos_of_ne_zero hzero) hdone
      hbody rfl ?_) hf.le
    · dsimp only
      rw [hsize]
      simp
    · dsimp only
      rw [hsize, List.append_nil, List.take_left' (by simp)]
    · rw [List.append_nil, List.flatMap_cons, requestBytes, List.append_assoc, hrest]

theorem tryReceiveOneRequest_outcome {c : RecvFrame} {evs : List Recv} {ms : List (Header × Bytes)} {got : Bytes}
    (hms : ∀ m ∈ ms, ValidRequest m) (hclean : ∀ ev ∈ evs, ev.Clean) (h : Holds c got)
    (hbytes : got ++ evs.flatMap Recv.bytes = ms.flatMap requestBytes) :
    Outcome evs ms (tryReceiveOneRequest c evs) := by
  cases h with
  | idle =>
    -- the first thing such a call does is to make room for a header
    have heq : tryReceiveOneRequest {} evs = tryReceiveOneRequest { frame := List.replicate 28 0 } evs := rfl
    rw [heq]
    exact receiveHeader_outcome hms hclean (by simp) rfl (by simp) rfl rfl hbytes
  | header hlen hgot hlt hheader hbody => exact receiveHeader_outcome hms hclean hlen hgot hlt hheader hbody hbytes
  | body hvalid hlen hgot hlt hheader hbody htarget =>
    have hne : c.frame ≠ [] := fun h => by
      rw [h, List.length_nil] at hlen
      omega
    rw [tryReceiveOneRequest, if_neg hne, if_neg (by omega)]
    exact receiveBody_outcome hms hclean hvalid hlen hgot hlt hheader hbody htarget hbytes

/-! ## All calls -/

/-- As long as a request is missing, the socket still has something for
it. -/
theorem Holds.rest_ne_nil {c : RecvFrame} {got : Bytes} {m : Header × Bytes} {ms : List (Header × Bytes)}
    {evs : List Recv} (hm : ValidRequest m) (h : Holds c got)
    (hbytes : got ++ evs.flatMap Recv.bytes = (m :: ms).flatMap requestBytes) : evs ≠ [] := by
  intro hnil
  rw [hnil, List.flatMap_nil, List.append_nil] at hbytes
  have hlen := congrArg List.length hbytes
  rw [List.flatMap_cons, List.length_append, requestBytes_length] at hlen
  cases h with
  | idle =>
    rw [List.length_nil] at hlen
    omega
  | header _ _ hlt _ _ => omega
  | body _ _ _ hlt _ _ _ =>
    obtain ⟨m', ms', hms, rfl, -⟩ := first_request hbytes
    obtain ⟨rfl, -⟩ := List.cons.inj hms
    rw [List.length_append, Header.length_bytes] at hlen
    have := hm.2
    omega

/-- What one of the calls may return. -/
def Received.Fine (r : Received) : Prop :=
  (r.ret = 0 ∧ r.out = none) ∨ (r.ret = 1 ∧ r.out.isSome ∧ r.conn = {})

/-- Each call consumes a piece or returns a request, so that many calls
return them all. -/
theorem receives_spec {n : Nat} {c : RecvFrame} {evs : List Recv} {ms : List (Header × Bytes)} {got : Bytes}
    (hms : ∀ m ∈ ms, ValidRequest m) (hclean : ∀ ev ∈ evs, ev.Clean) (h : Holds c got)
    (hbytes : got ++ evs.flatMap Recv.bytes = ms.flatMap requestBytes) :
    (∀ r ∈ receives n c evs, r.Fine) ∧ ∃ missing, (receives n c evs).filterMap (·.out) ++ missing = ms ∧
      (evs.length + ms.length ≤ n → missing = []) := by
  induction n generalizing c evs ms got with
  | zero => exact ⟨by simp [receives], ms, rfl, fun hn => List.length_eq_zero_iff.mp (by omega)⟩
  | succ n ih =>
    cases tryReceiveOneRequest_outcome hms hclean h hbytes with
    | more got' hret hout hholds hclean' hbytes' hless =>
      obtain ⟨hfine, missing, hall, hnone⟩ := ih hms hclean' hholds hbytes'
      refine ⟨List.forall_mem_cons.mpr ⟨.inl ⟨hret, hout⟩, hfine⟩, missing, ?_, fun hn => ?_⟩
      · rw [receives, List.filterMap_cons_none hout, hall]
      · cases ms with
        | nil => exact (List.append_eq_nil_iff.mp hall).2
        | cons m ms =>
          -- a part of `m` is still in the socket, so a piece was taken
          have hne := hholds.rest_ne_nil (hms m List.mem_cons_self) hbytes'
          have hlt := hless.resolve_right hne
          exact hnone (by omega)
    | one m ms' heq hret hout hconn hclean' hbytes' hle =>
      subst heq
      have hidle : Holds (tryReceiveOneRequest c evs).conn [] := hconn ▸ .idle
      obtain ⟨hfine, missing, hall, hnone⟩ := ih (List.forall_mem_cons.mp hms).2 hclean' hidle hbytes'
      refine ⟨List.forall_mem_cons.mpr ⟨.inr ⟨hret, by rw [hout]; rfl, hconn⟩, hfine⟩, missing, ?_, fun hn => ?_⟩
      · rw [receives, List.filterMap_cons_some hout, List.cons_append, hall]
      · rw [List.length_cons] at hn
        exact hnone (by omega)

/-- Every sequence of valid requests and every way to cut its bytes: the
calls return 0 or 1, the requests come out in order and one by one, each
leaves the frame as after a reset, and after enough calls all of them have
come out. -/
theorem framing_exact (ms : List (Header × Bytes)) (evs : List Recv) (hms : ∀ m ∈ ms, ValidRequest m)
    (hcuts : Cuts evs (ms.flatMap requestBytes)) :
    (∀ n, (∀ r ∈ receives n {} evs, r.Fine) ∧ (receives n {} evs).filterMap (·.out) <+: ms) ∧
      ∀ n, evs.length + ms.length ≤ n → (receives n {} evs).filterMap (·.out) = ms := by
  have hbytes : [] ++ evs.flatMap Recv.bytes = ms.flatMap requestBytes := hcuts.bytes
  refine ⟨fun n => ?_, fun n hn => ?_⟩
  · obtain ⟨hfine, missing, hall, -⟩ := @receives_spec n _ _ _ _ hms hcuts.clean .idle hbytes
    exact ⟨hfine, missing, hall⟩
  · obtain ⟨-, missing, hall, hnone⟩ := @receives_spec n _ _ _ _ hms hcuts.clean .idle hbytes
    rwa [hnone hn, List.append_nil] at hall

/-- A request to delete an object and one without a body, cut inside the
first header and inside its body. -/
theorem framing_exact_two :
    let ms : List (Header × Bytes) := [(requestHeader 4 1 [5, 6, 7], [5, 6, 7]), (requestHeader 9 2 [], [])]
    let bs := ms.flatMap requestBytes
    let evs : List Recv := [.interrupted, .data (bs.take 3), .wouldBlock, .data ((bs.drop 3).take 26), .wouldBlock,
      .data (bs.drop 29)]
    (∀ n, (∀ r ∈ receives n {} evs, r.Fine) ∧ (receives n {} evs).filterMap (·.out) <+: ms) ∧
      ∀ n, evs.length + ms.length ≤ n → (receives n {} evs).filterMap (·.out) = ms := by
  intro ms bs evs
  refine framing_exact ms evs ?_ ⟨?_, by decide +kernel⟩
  · intro m hm
    rcases List.mem_pair.mp hm with rfl | rfl <;> exact ⟨by decide +kernel, by decide +kernel⟩
  · intro ev hev
    simp only [evs, List.mem_cons, List.not_mem_nil, or_false] at hev
    rcases hev with rfl | rfl | rfl | rfl | rfl | rfl
    · trivial
    · exact (by decide +kernel : bs.take 3 ≠ [])
    · trivial
    · exact (by decide +kernel : (bs.drop 3).take 26 ≠ [])
    · trivial
    · exact (by decide +kernel : bs.drop 29 ≠ [])

end Fastblock.L5.Raw
