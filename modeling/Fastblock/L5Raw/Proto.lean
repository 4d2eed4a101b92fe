import Fastblock.Core.Codec
import Fastblock.L5Monitor.Image

/-!
# The structs of the raw protocol

A message between the kernel client and an OSD is a header of 28 bytes and
a body that starts with a packed little endian struct. Both sides have
their own copies: `src/osd/raw_tcp_server.cc:40-91` and
`kfastblock/include/kfastblock/rawproto.h:37-138`.

Each struct has its bytes and a reader; `reads`: the reader finds the
struct in front of whatever follows it.
-/
namespace Fastblock.L5.Raw

open Fastblock.Core

/-- `raw_header`. -/
structure Header where
  magic : UInt32
  versionMajor : UInt8
  versionMinor : UInt8
  service : UInt8
  opcode : UInt8
  flags : UInt32
  seq : UInt64
  status : UInt32
  bodyLen : UInt32
  deriving DecidableEq, Repr, Inhabited

def Header.bytes (h : Header) : Bytes :=
  leBytes 4 h.magic.toNat ++ (leBytes 1 h.versionMajor.toNat ++ (leBytes 1 h.versionMinor.toNat ++
    (leBytes 1 h.service.toNat ++ (leBytes 1 h.opcode.toNat ++ (leBytes 4 h.flags.toNat ++
      (leBytes 8 h.seq.toNat ++ (leBytes 4 h.status.toNat ++ leBytes 4 h.bodyLen.toNat)))))))

def Header.read : Reader Header := do
  let magic ← Reader.u32
  let versionMajor ← Reader.u8
  let versionMinor ← Reader.u8
  let service ← Reader.u8
  let opcode ← Reader.u8
  let flags ← Reader.u32
  let seq ← Reader.u64
  let status ← Reader.u32
  let bodyLen ← Reader.u32
  return ⟨magic, versionMajor, versionMinor, service, opcode, flags, seq, status, bodyLen⟩

@[simp] theorem Header.length_bytes (h : Header) : h.bytes.length = 28 := by
  simp [Header.bytes]

theorem Header.reads (h : Header) : Reads Header.read h.bytes h :=
  (Reads.u32 _).bind <| (Reads.u8 _).bind <| (Reads.u8 _).bind <| (Reads.u8 _).bind <| (Reads.u8 _).bind <|
    (Reads.u32 _).bind <| (Reads.u64 _).bind <| (Reads.u32 _).bind <| (Reads.u32 _).map

/-- `raw_get_leader_req`. -/
structure GetLeaderReq where
  poolId : UInt32
  pgId : UInt32
  deriving DecidableEq, Repr

def GetLeaderReq.bytes (r : GetLeaderReq) : Bytes := leBytes 4 r.poolId.toNat ++ leBytes 4 r.pgId.toNat

def GetLeaderReq.read : Reader GetLeaderReq := do
  let poolId ← Reader.u32
  let pgId ← Reader.u32
  return ⟨poolId, pgId⟩

theorem GetLeaderReq.reads (r : GetLeaderReq) : Reads GetLeaderReq.read r.bytes r :=
  (Reads.u32 _).bind (Reads.u32 _).map

/-- `raw_get_leader_rsp`. -/
structure GetLeaderRsp where
  leaderId : UInt32
  leaderPort : UInt16
  addressLen : UInt16
  deriving DecidableEq, Repr

def GetLeaderRsp.bytes (r : GetLeaderRsp) : Bytes :=
  leBytes 4 r.leaderId.toNat ++ (leBytes 2 r.leaderPort.toNat ++ leBytes 2 r.addressLen.toNat)

def GetLeaderRsp.read : Reader GetLeaderRsp := do
  let leaderId ← Reader.u32
  let leaderPort ← Reader.u16
  let addressLen ← Reader.u16
  return ⟨leaderId, leaderPort, addressLen⟩

theorem GetLeaderRsp.reads (r : GetLeaderRsp) : Reads GetLeaderRsp.read r.bytes r :=
  (Reads.u32 _).bind <| (Reads.u16 _).bind (Reads.u16 _).map

/-- `raw_read_object_req` and `raw_write_object_req`, where `length` is
called `data_len`. -/
structure ObjectReq where
  poolId : UInt32
  pgId : UInt32
  offset : UInt64
  length : UInt32
  objectNameLen : UInt16
  reserved : UInt16
  deriving DecidableEq, Repr

def ObjectReq.bytes (r : ObjectReq) : Bytes :=
  leBytes 4 r.poolId.toNat ++ (leBytes 4 r.pgId.toNat ++ (leBytes 8 r.offset.toNat ++
    (leBytes 4 r.length.toNat ++ (leBytes 2 r.objectNameLen.toNat ++ leBytes 2 r.reserved.toNat))))

def ObjectReq.read : Reader ObjectReq := do
  let poolId ← Reader.u32
  let pgId ← Reader.u32
  let offset ← Reader.u64
  let length ← Reader.u32
  let objectNameLen ← Reader.u16
  let reserved ← Reader.u16
  return ⟨poolId, pgId, offset, length, objectNameLen, reserved⟩

theorem ObjectReq.reads (r : ObjectReq) : Reads ObjectReq.read r.bytes r :=
  (Reads.u32 _).bind <| (Reads.u32 _).bind <| (Reads.u64 _).bind <| (Reads.u32 _).bind <| (Reads.u16 _).bind
    (Reads.u16 _).map

/-- `raw_delete_object_req`. -/
structure DeleteObjectReq where
  poolId : UInt32
  pgId : UInt32
  objectNameLen : UInt16
  reserved : UInt16
  deriving DecidableEq, Repr

def DeleteObjectReq.bytes (r : DeleteObjectReq) : Bytes :=
  leBytes 4 r.poolId.toNat ++ (leBytes 4 r.pgId.toNat ++
    (leBytes 2 r.objectNameLen.toNat ++ leBytes 2 r.reserved.toNat))

def DeleteObjectReq.read : Reader DeleteObjectReq := do
  let poolId ← Reader.u32
  let pgId ← Reader.u32
  let objectNameLen ← Reader.u16
  let reserved ← Reader.u16
  return ⟨poolId, pgId, objectNameLen, reserved⟩

theorem DeleteObjectReq.reads (r : DeleteObjectReq) : Reads DeleteObjectReq.read r.bytes r :=
  (Reads.u32 _).bind <| (Reads.u32 _).bind <| (Reads.u16 _).bind (Reads.u16 _).map

/-- `raw_read_object_rsp`. -/
structure ReadObjectRsp where
  dataLen : UInt32
  reserved : UInt32
  deriving DecidableEq, Repr

def ReadObjectRsp.bytes (r : ReadObjectRsp) : Bytes := leBytes 4 r.dataLen.toNat ++ leBytes 4 r.reserved.toNat

def ReadObjectRsp.read : Reader ReadObjectRsp := do
  let dataLen ← Reader.u32
  let reserved ← Reader.u32
  return ⟨dataLen, reserved⟩

theorem ReadObjectRsp.reads (r : ReadObjectRsp) : Reads ReadObjectRsp.read r.bytes r :=
  (Reads.u32 _).bind (Reads.u32 _).map

@[simp] theorem GetLeaderReq.length_bytes (r : GetLeaderReq) : r.bytes.length = 8 := by simp [GetLeaderReq.bytes]
@[simp] theorem GetLeaderRsp.length_bytes (r : GetLeaderRsp) : r.bytes.length = 8 := by simp [GetLeaderRsp.bytes]
@[simp] theorem ObjectReq.length_bytes (r : ObjectReq) : r.bytes.length = 24 := by simp [ObjectReq.bytes]
@[simp] theorem DeleteObjectReq.length_bytes (r : DeleteObjectReq) : r.bytes.length = 12 := by
  simp [DeleteObjectReq.bytes]
@[simp] theorem ReadObjectRsp.length_bytes (r : ReadObjectRsp) : r.bytes.length = 8 := by simp [ReadObjectRsp.bytes]

end Fastblock.L5.Raw
