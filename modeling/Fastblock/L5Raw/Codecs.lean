import Fastblock.L5Client.ReadObject
import Fastblock.L5Client.Split
import Fastblock.L5Raw.Proto

/-!
# Requests of the kernel client and the dispatchers of the OSD

The kernel builds the bodies of its requests in
`kfastblock/src/transport.c:2039-2187`; the OSD reads them in the
dispatchers of `src/osd/raw_tcp_server.cc:594-855`. The responses go the
other way, to `kfastblock_transport_response_decode_leader` and
`..._read_object` (transport.c:1650-1703).

* `RequestsAgree`: the OSD takes a request of the kernel for the operation
  that the kernel meant.
* `ResponsesAgree`: the kernel finds in a response what the OSD put there.

The kernel keeps the address of a leader as a C string and refuses an
empty one, so an address with a NUL byte does not arrive:
`raw_codecs_agree` leaves it out.
-/
namespace Fastblock.L5.Raw

open Fastblock.Core

def rawMagic : UInt32 := 0x46425257
def rawVersionMajor : UInt8 := 1
def rawVersionMinor : UInt8 := 0
def rawServiceOsd : UInt8 := 2

def rawOpGetLeader : UInt8 := 1
def rawOpReadObject : UInt8 := 2
def rawOpWriteObject : UInt8 := 3
def rawOpDeleteObject : UInt8 := 4

def rawFlagResponse : UInt32 := 1

/-- `validate_request_header`. -/
def validateRequestHeader (h : Header) : Bool :=
  h.magic = rawMagic && h.versionMajor = rawVersionMajor && h.versionMinor = rawVersionMinor &&
    h.service = rawServiceOsd && h.flags &&& rawFlagResponse = 0 && h.status = 0 && h.bodyLen.toNat ≤ maxRawBodyLen

/-! ## The OSD -/

/-- What a dispatcher asks of `osd_service`. -/
inductive ServiceCall
  | getLeader (poolId pgId : UInt32)
  | read (poolId pgId : UInt32) (offset : UInt64) (length : UInt32) (objectName : Bytes)
  | write (poolId pgId : UInt32) (offset : UInt64) (objectName data : Bytes)
  | delete (poolId pgId : UInt32) (objectName : Bytes)
  deriving DecidableEq, Repr

/-- A request that is refused is completed at once with an empty body. -/
inductive Dispatch
  | refuse (status : RawStatus)
  | call (c : ServiceCall)
  deriving DecidableEq, Repr

def dispatchGetLeaderRequest (body : Bytes) : Dispatch :=
  if body.length ≠ 8 then .refuse .invalidRequest
  else
    match GetLeaderReq.read.run body with
    | none => .refuse .invalidRequest
    | some (req, _) => .call (.getLeader req.poolId req.pgId)

def dispatchReadRequest (body : Bytes) : Dispatch :=
  if body.length < 24 then .refuse .invalidRequest
  else
    match ObjectReq.read.run body with
    | none => .refuse .invalidRequest
    | some (req, rest) =>
      if body.length ≠ 24 + req.objectNameLen.toNat ∨ req.objectNameLen = 0 then .refuse .invalidRequest
      else .call (.read req.poolId req.pgId req.offset req.length (rest.take req.objectNameLen.toNat))

def dispatchWriteRequest (body : Bytes) : Dispatch :=
  if body.length < 24 then .refuse .invalidRequest
  else
    match ObjectReq.read.run body with
    | none => .refuse .invalidRequest
    | some (req, rest) =>
      let nameLen := req.objectNameLen.toNat
      let dataLen := req.length.toNat
      if body.length ≠ 24 + nameLen + dataLen ∨ nameLen = 0 then .refuse .invalidRequest
      else .call (.write req.poolId req.pgId req.offset (rest.take nameLen) ((rest.drop nameLen).take dataLen))

def dispatchDeleteRequest (body : Bytes) : Dispatch :=
  if body.length < 12 then .refuse .invalidRequest
  else
    match DeleteObjectReq.read.run body with
    | none => .refuse .invalidRequest
    | some (req, rest) =>
      if body.length ≠ 12 + req.objectNameLen.toNat ∨ req.objectNameLen = 0 then .refuse .invalidRequest
      else .call (.delete req.poolId req.pgId (rest.take req.objectNameLen.toNat))

def dispatchRequest (h : Header) (body : Bytes) : Dispatch :=
  if !validateRequestHeader h then .refuse .invalidRequest
  else if h.opcode = rawOpGetLeader then dispatchGetLeaderRequest body
  else if h.opcode = rawOpReadObject then dispatchReadRequest body
  else if h.opcode = rawOpWriteObject then dispatchWriteRequest body
  else if h.opcode = rawOpDeleteObject then dispatchDeleteRequest body
  else .refuse .invalidRequest

/-- `osd_service::leader_endpoint`. -/
structure LeaderEndpoint where
  state : Int
  leaderId : Int32
  leaderAddr : Bytes
  leaderPort : Int32
  deriving DecidableEq, Repr

def buildLeaderResponseBody (leader : LeaderEndpoint) : Bytes :=
  GetLeaderRsp.bytes ⟨UInt32.ofNat leader.leaderId.toInt.toNat, UInt16.ofNat leader.leaderPort.toInt.toNat,
    UInt16.ofNat leader.leaderAddr.length⟩ ++ leader.leaderAddr

/-- How `dispatch_get_leader_request` completes the request once
`resolve_pg_leader` has answered. -/
def leaderResponse (leader : LeaderEndpoint) : RawStatus × Bytes :=
  if leader.state ≠ Err.success then (rawStatusFromErrno leader.state, [])
  else if leader.leaderPort.toInt ≤ 0 ∨ leader.leaderPort.toInt > 65535 ∨ leader.leaderId.toInt < 0 ∨
      leader.leaderAddr.length > 65535 then (.internalError, [])
  else (.ok, buildLeaderResponseBody leader)

def buildReadResponseBody (data : Bytes) : Bytes := ReadObjectRsp.bytes ⟨UInt32.ofNat data.length, 0⟩ ++ data

/-- The closure of `dispatch_read_request`. -/
def readResponse (r : ReadReply) : RawStatus × Bytes :=
  match rawReadResponse r with
  | (.ok, data) => (.ok, buildReadResponseBody data)
  | (status, _) => (status, [])

/-! ## The kernel client -/

/-- The bytes of a C string in its array. -/
def cString (buf : Bytes) : Bytes := buf.takeWhile (· ≠ 0)

/-- The header of `kfastblock_transport_send_request`,
transport.c:846-856. The caller,
`kfastblock_transport_send_request_parts`, passes NULL for the body with
the length of all parts (884), so that this many bytes are sent from NULL
between the header and the parts. Here a request is its header and its
parts. -/
def requestHeader (opcode : UInt8) (seq : UInt64) (body : Bytes) : Header :=
  ⟨rawMagic, rawVersionMajor, rawVersionMinor, rawServiceOsd, opcode, 0, seq, 0, UInt32.ofNat body.length⟩

/-- `kfastblock_transport_fetch_pg_leader_from_osd`. -/
def fetchPgLeaderBody (poolId pgId : UInt32) : Bytes := GetLeaderReq.bytes ⟨poolId, pgId⟩

/-- The struct of `kfastblock_transport_read_object` and
`kfastblock_transport_write_object`. -/
def objectReq (poolId : UInt32) (e : KernelExtent) : ObjectReq :=
  ⟨poolId, e.pgId, e.objectOffset.toUInt64, e.length, UInt16.ofNat (cString e.objectName).length, 0⟩

def readObjectBody (poolId : UInt32) (e : KernelExtent) : Bytes :=
  (objectReq poolId e).bytes ++ cString e.objectName

def writeObjectBody (poolId : UInt32) (e : KernelExtent) (data : Bytes) : Bytes :=
  (objectReq poolId e).bytes ++ (cString e.objectName ++ data.take e.length.toNat)

def deleteObjectBody (poolId : UInt32) (e : KernelExtent) : Bytes :=
  DeleteObjectReq.bytes ⟨poolId, e.pgId, UInt16.ofNat (cString e.objectName).length, 0⟩ ++ cString e.objectName

/-- `kfastblock_leader_info`; `address` is the array of 256 bytes. -/
structure LeaderInfo where
  osdId : UInt32
  port : UInt16
  address : Bytes
  deriving DecidableEq, Repr

/-- `kfastblock_transport_response_decode_leader`. -/
def responseDecodeLeader (body : Bytes) : Except KErrno LeaderInfo :=
  match GetLeaderRsp.read.run body with
  | none => .error .eproto
  | some (rsp, rest) =>
    let addressLen := rsp.addressLen.toNat
    if body.length ≠ 8 + addressLen ∨ addressLen = 0 ∨ addressLen ≥ 256 then .error .eproto
    else
      let address := rest.take addressLen ++ List.replicate (256 - addressLen) 0
      if rsp.leaderId = 0 ∨ rsp.leaderPort = 0 ∨ address.head? = some 0 then .error .eproto
      else .ok ⟨rsp.leaderId, rsp.leaderPort, address⟩

/-- `kfastblock_transport_response_decode_read_object`: the buffer of the
extent afterwards. -/
def responseDecodeReadObject (e : KernelExtent) (body : Bytes) : Except KErrno Bytes :=
  match ReadObjectRsp.read.run body with
  | none => .error .eproto
  | some (rsp, rest) =>
    let dataLen := rsp.dataLen.toNat
    if body.length ≠ 8 + dataLen ∨ dataLen > e.length.toNat then .error .eproto
    else .ok (rest.take dataLen ++ List.replicate (e.length.toNat - dataLen) 0)

/-! ## Agreement -/

/-- The OSD decodes the requests of the kernel for an extent to the fields
that the kernel put in. -/
structure RequestsAgree (poolId : UInt32) (e : KernelExtent) (seq : UInt64) : Prop where
  getLeader : dispatchRequest (requestHeader rawOpGetLeader seq (fetchPgLeaderBody poolId e.pgId))
    (fetchPgLeaderBody poolId e.pgId) = .call (.getLeader poolId e.pgId)
  read : dispatchRequest (requestHeader rawOpReadObject seq (readObjectBody poolId e)) (readObjectBody poolId e) =
    .call (.read poolId e.pgId e.objectOffset.toUInt64 e.length (cString e.objectName))
  write : ∀ data : Bytes, data.length = e.length.toNat → (writeObjectBody poolId e data).length ≤ maxRawBodyLen →
    dispatchRequest (requestHeader rawOpWriteObject seq (writeObjectBody poolId e data))
      (writeObjectBody poolId e data) =
      .call (.write poolId e.pgId e.objectOffset.toUInt64 (cString e.objectName) data)
  delete : dispatchRequest (requestHeader rawOpDeleteObject seq (deleteObjectBody poolId e))
    (deleteObjectBody poolId e) =
    .call (.delete poolId e.pgId (cString e.objectName))

/-- The kernel decodes the leader and the data that the OSD put in a
response. -/
structure ResponsesAgree (e : KernelExtent) : Prop where
  leader : ∀ (leader : LeaderEndpoint) (body : Bytes), leaderResponse leader = (.ok, body) → leader.leaderId ≠ 0 →
    1 ≤ leader.leaderAddr.length → leader.leaderAddr.length ≤ 255 → 0 ∉ leader.leaderAddr →
    ∃ info, responseDecodeLeader body = .ok info ∧ (info.osdId.toNat : Int) = leader.leaderId.toInt ∧
      (info.port.toNat : Int) = leader.leaderPort.toInt ∧ cString info.address = leader.leaderAddr
  data : ∀ data body : Bytes, readResponse ⟨Err.success, data⟩ = (.ok, body) → data.length = e.length.toNat →
    responseDecodeReadObject e body = .ok data

/-! ## Requests -/

theorem validate_requestHeader (opcode : UInt8) (seq : UInt64) {body : Bytes} (h : body.length ≤ maxRawBodyLen) :
    validateRequestHeader (requestHeader opcode seq body) = true := by
  have hlen : (UInt32.ofNat body.length).toNat ≤ maxRawBodyLen := by
    rw [UInt32.toNat_ofNat']
    exact Nat.le_trans (Nat.mod_le _ _) h
  have hflags : (0 : UInt32) &&& rawFlagResponse = 0 := by decide
  simp only [validateRequestHeader, requestHeader, hlen, hflags, decide_true, Bool.and_self]

/-- A request of the kernel that is not too long is dispatched by its
opcode. -/
theorem dispatchRequest_requestHeader (opcode : UInt8) (seq : UInt64) {body : Bytes}
    (h : body.length ≤ maxRawBodyLen) :
    dispatchRequest (requestHeader opcode seq body) body =
      if opcode = rawOpGetLeader then dispatchGetLeaderRequest body
      else if opcode = rawOpReadObject then dispatchReadRequest body
      else if opcode = rawOpWriteObject then dispatchWriteRequest body
      else if opcode = rawOpDeleteObject then dispatchDeleteRequest body
      else .refuse .invalidRequest := by
  rw [dispatchRequest, validate_requestHeader opcode seq h]
  rfl

section

variable {e : KernelExtent} (poolId : UInt32)

theorem nameLen_toNat (hlen : (cString e.objectName).length < 192) :
    (UInt16.ofNat (cString e.objectName).length).toNat = (cString e.objectName).length :=
  UInt16.toNat_ofNat_of_lt' (Nat.lt_trans hlen (by decide))

theorem dispatchGetLeader_body (pgId : UInt32) :
    dispatchGetLeaderRequest (fetchPgLeaderBody poolId pgId) = .call (.getLeader poolId pgId) := by
  have hread := (GetLeaderReq.reads ⟨poolId, pgId⟩).run_self
  simp only [dispatchGetLeaderRequest, fetchPgLeaderBody, GetLeaderReq.length_bytes, ne_eq, not_true_eq_false,
    if_false, hread]

theorem dispatchRead_body (hname : 0 < (cString e.objectName).length) (hlen : (cString e.objectName).length < 192) :
    dispatchReadRequest (readObjectBody poolId e) =
      .call (.read poolId e.pgId e.objectOffset.toUInt64 e.length (cString e.objectName)) := by
  have hread := (objectReq poolId e).reads (cString e.objectName)
  have hn : (objectReq poolId e).objectNameLen.toNat = (cString e.objectName).length := nameLen_toNat hlen
  have hz : (objectReq poolId e).objectNameLen ≠ 0 := fun h => by simp [h] at hn; omega
  rw [dispatchReadRequest, readObjectBody, hread]
  dsimp only
  rw [List.length_append, ObjectReq.length_bytes, if_neg (by omega), if_neg (by simp [hn, hz]), hn, List.take_length]
  rfl

theorem dispatchWrite_body {data : Bytes} (hname : 0 < (cString e.objectName).length)
    (hlen : (cString e.objectName).length < 192) (hdata : data.length = e.length.toNat) :
    dispatchWriteRequest (writeObjectBody poolId e data) =
      .call (.write poolId e.pgId e.objectOffset.toUInt64 (cString e.objectName) data) := by
  have hread := (objectReq poolId e).reads (cString e.objectName ++ data)
  have hn : (objectReq poolId e).objectNameLen.toNat = (cString e.objectName).length := nameLen_toNat hlen
  have hl : (objectReq poolId e).length.toNat = data.length := hdata.symm
  rw [dispatchWriteRequest, writeObjectBody, ← hdata, List.take_length, hread]
  dsimp only
  rw [List.length_append, List.length_append, ObjectReq.length_bytes, hn, hl, if_neg (by omega),
    if_neg (by omega), List.take_left, List.drop_left, List.take_length]
  rfl

theorem dispatchDelete_body (hname : 0 < (cString e.objectName).length) (hlen : (cString e.objectName).length < 192) :
    dispatchDeleteRequest (deleteObjectBody poolId e) = .call (.delete poolId e.pgId (cString e.objectName)) := by
  have hread := (DeleteObjectReq.reads
    ⟨poolId, e.pgId, UInt16.ofNat (cString e.objectName).length, 0⟩) (cString e.objectName)
  have hn := nameLen_toNat hlen
  have hz : UInt16.ofNat (cString e.objectName).length ≠ 0 := fun h => by simp [h] at hn; omega
  rw [dispatchDeleteRequest, deleteObjectBody, hread]
  dsimp only
  rw [List.length_append, DeleteObjectReq.length_bytes, if_neg (by omega), if_neg (by simp [hn, hz]), hn,
    List.take_length]

theorem requestsAgree (seq : UInt64) (hname : 0 < (cString e.objectName).length)
    (hlen : (cString e.objectName).length < 192) : RequestsAgree poolId e seq where
  getLeader := by
    rw [dispatchRequest_requestHeader _ _ (by simp [fetchPgLeaderBody, maxRawBodyLen]), if_pos rfl]
    exact dispatchGetLeader_body poolId e.pgId
  read := by
    rw [dispatchRequest_requestHeader _ _ (by simp [readObjectBody, maxRawBodyLen]; omega),
      if_neg (by decide), if_pos rfl]
    exact dispatchRead_body poolId hname hlen
  write data hdata hfit := by
    rw [dispatchRequest_requestHeader _ _ hfit, if_neg (by decide), if_neg (by decide), if_pos rfl]
    exact dispatchWrite_body poolId hname hlen hdata
  delete := by
    rw [dispatchRequest_requestHeader _ _ (by simp [deleteObjectBody, maxRawBodyLen]; omega), if_neg (by decide),
      if_neg (by decide), if_neg (by decide), if_pos rfl]
    exact dispatchDelete_body poolId hname hlen

end

/-! ## Responses -/

theorem cString_append {bs zs : Bytes} (h : 0 ∉ bs) (hz : ∀ z ∈ zs.head?, z = 0) : cString (bs ++ zs) = bs := by
  induction bs with
  | nil =>
    cases zs with
    | nil => rfl
    | cons z zs => simp [cString, hz z rfl]
  | cons b bs ih =>
    have hb : b ≠ 0 := fun hb => h (hb ▸ List.mem_cons_self)
    have := ih fun hm => h (List.mem_cons_of_mem _ hm)
    simp only [cString] at this ⊢
    rw [List.cons_append, List.takeWhile_cons_of_pos (by simp [hb]), this]

/-- The OSD answers with a leader only if its id and its port can be
sent. -/
theorem leaderResponse_ok {leader : LeaderEndpoint} {body : Bytes} (h : leaderResponse leader = (.ok, body)) :
    0 ≤ leader.leaderId.toInt ∧ 0 < leader.leaderPort.toInt ∧ leader.leaderPort.toInt ≤ 65535 ∧
      body = buildLeaderResponseBody leader := by
  unfold leaderResponse at h
  split at h
  · next hstate =>
    have := (Prod.mk.inj h).1
    unfold rawStatusFromErrno at this
    rw [if_neg hstate] at this
    repeat' split at this
    all_goals cases this
  · split at h
    · cases h
    · next hrange =>
      have hbody := (Prod.mk.inj h).2
      exact ⟨by omega, by omega, by omega, hbody.symm⟩

theorem decodeLeader_response {leader : LeaderEndpoint} {body : Bytes} (h : leaderResponse leader = (.ok, body))
    (hid : leader.leaderId ≠ 0) (hpos : 1 ≤ leader.leaderAddr.length) (hmax : leader.leaderAddr.length ≤ 255)
    (hnul : 0 ∉ leader.leaderAddr) :
    ∃ info, responseDecodeLeader body = .ok info ∧ (info.osdId.toNat : Int) = leader.leaderId.toInt ∧
      (info.port.toNat : Int) = leader.leaderPort.toInt ∧ cString info.address = leader.leaderAddr := by
  obtain ⟨hid0, hport0, hport, rfl⟩ := leaderResponse_ok h
  have hidne : leader.leaderId.toInt ≠ 0 := fun h0 => hid (Int32.toInt_inj.mp h0)
  have hidlt := leader.leaderId.toInt_lt
  have hosd : (UInt32.ofNat leader.leaderId.toInt.toNat).toNat = leader.leaderId.toInt.toNat :=
    UInt32.toNat_ofNat_of_lt' (by change _ < 4294967296; omega)
  have hprt : (UInt16.ofNat leader.leaderPort.toInt.toNat).toNat = leader.leaderPort.toInt.toNat :=
    UInt16.toNat_ofNat_of_lt' (by change _ < 65536; omega)
  have hadr : (UInt16.ofNat leader.leaderAddr.length).toNat = leader.leaderAddr.length :=
    UInt16.toNat_ofNat_of_lt' (by change _ < 65536; omega)
  have hread := (GetLeaderRsp.reads ⟨UInt32.ofNat leader.leaderId.toInt.toNat,
    UInt16.ofNat leader.leaderPort.toInt.toNat, UInt16.ofNat leader.leaderAddr.length⟩) leader.leaderAddr
  have hosdne : UInt32.ofNat leader.leaderId.toInt.toNat ≠ 0 := fun h0 => by
    rw [h0, UInt32.toNat_zero] at hosd
    omega
  have hprtne : UInt16.ofNat leader.leaderPort.toInt.toNat ≠ 0 := fun h0 => by
    rw [h0, UInt16.toNat_zero] at hprt
    omega
  have hhead : (leader.leaderAddr ++ List.replicate (256 - leader.leaderAddr.length) 0).head? ≠ some 0 := by
    cases hl : leader.leaderAddr with
    | nil => simp [hl] at hpos
    | cons b bs =>
      intro h0
      rw [hl, List.mem_cons] at hnul
      exact hnul (.inl (Option.some.inj h0).symm)
  rw [responseDecodeLeader, buildLeaderResponseBody, hread]
  dsimp only
  rw [hadr, List.length_append, GetLeaderRsp.length_bytes, if_neg (by omega), List.take_length,
    if_neg (by simp only [hosdne, hprtne, hhead, or_self, not_false_eq_true])]
  refine ⟨_, rfl, ?_, ?_, cString_append hnul ?_⟩
  · dsimp only
    omega
  · dsimp only
    omega
  · intro z hz
    exact List.eq_of_mem_replicate (List.mem_of_mem_head? hz)

theorem decodeReadObject_response {e : KernelExtent} {data body : Bytes}
    (h : readResponse ⟨Err.success, data⟩ = (.ok, body)) (hlen : data.length = e.length.toNat) :
    responseDecodeReadObject e body = .ok data := by
  have hbody : body = buildReadResponseBody data := by
    unfold readResponse rawReadResponse at h
    rw [if_neg (by simp)] at h
    by_cases hbig : data.length > maxRawBodyLen - 8
    · rw [if_pos hbig] at h
      cases (Prod.mk.inj h).1
    · rw [if_neg hbig] at h
      exact (Prod.mk.inj h).2.symm
  have hdl : (UInt32.ofNat data.length).toNat = data.length :=
    UInt32.toNat_ofNat_of_lt' (hlen ▸ e.length.toNat_lt)
  have hread := (ReadObjectRsp.reads ⟨UInt32.ofNat data.length, 0⟩) data
  rw [hbody, responseDecodeReadObject, buildReadResponseBody, hread]
  dsimp only
  rw [hdl, List.length_append, ReadObjectRsp.length_bytes, if_neg (by omega), List.take_length, hlen, Nat.sub_self,
    List.replicate_zero, List.append_nil]

/-- For every pool, every extent whose object has a name that fits its
array, and every sequence number, the two sides agree on the requests and
on the responses, as long as the address of a leader has no NUL byte. -/
theorem raw_codecs_agree (poolId : UInt32) (e : KernelExtent) (seq : UInt64) (hname : cString e.objectName ≠ [])
    (hlen : (cString e.objectName).length < 192) : RequestsAgree poolId e seq ∧ ResponsesAgree e := by
  refine ⟨requestsAgree poolId seq (List.length_pos_of_ne_nil hname) hlen, ?_, ?_⟩
  · intro leader body h hid hpos hmax hnul
    exact decodeLeader_response h hid hpos hmax hnul
  · intro data body h hdata
    exact decodeReadObject_response h hdata

theorem raw_codecs_agree_one :
    RequestsAgree 1 ⟨0, 0, 4096, 512, [97, 0, 0], 3⟩ 7 ∧ ResponsesAgree ⟨0, 0, 4096, 512, [97, 0, 0], 3⟩ :=
  raw_codecs_agree 1 ⟨0, 0, 4096, 512, [97, 0, 0], 3⟩ 7 (by decide) (by decide)

/-- An address that is one NUL byte: the OSD sends it, and the kernel
takes it for no address. -/
theorem nul_address_refused :
    (leaderResponse ⟨0, 1, [0], 10001⟩).1 = .ok ∧
      responseDecodeLeader (leaderResponse ⟨0, 1, [0], 10001⟩).2 = .error .eproto := by
  decide +kernel

end Fastblock.L5.Raw
