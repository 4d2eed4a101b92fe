import Fastblock.L5Client.Errno
import Fastblock.L5Client.Split

/-!
# The answer to a read, from the object store to the clients

`object_store::readwrite` answers a read of an object that it does not
have with `-ENOENT`. The answer passes `osd_stm::read_and_wait`; the
kernel client gets it through `raw_status_from_errno` and
`kfastblock_transport_status_to_errno`, the C++ client as it is.

The kernel client makes zeros of `-ENOENT` (`normalizeObjectRet`), but the
raw server has no status for it and sends `internal_error`. The C++ client
takes it for a sign of a wrong leader and sends the request again. So an
extent is read, with its unwritten bytes as zeros, if and only if its
object exists (`read_object_iff`).
-/
namespace Fastblock.L5

/-! ## The OSD -/

/-- The objects of a PG on its leader: those that have been written, with
their bytes. -/
abbrev Objects := Bytes → Option (Nat → UInt8)

def blobSize : Nat := 4 * 1024 * 1024

/-- `object_store::readwrite` of a read whose disk reads succeed, into a
buffer of zeros. -/
def objectStoreRead (objs : Objects) (objectName : Bytes) (offset length : Nat) : Int × Bytes :=
  let len := if offset + length > blobSize then blobSize - offset else length
  match objs objectName with
  | some blob => (Err.success, (List.range length).map fun k => if k < len then blob (offset + k) else 0)
  | none => (Err.enoent, List.replicate length 0)

/-- `osd::read_reply`. -/
structure ReadReply where
  state : Int
  data : Bytes
  deriving DecidableEq, Repr

/-- `osd_stm::read_and_wait`; `linearization` says whether the leader has
its leases. -/
def readAndWait (linearization : Bool) (objs : Objects) (e : Extent) : ReadReply :=
  if !linearization then ⟨Err.raftErrNotLeader, []⟩
  else
    let (errno, buf) := objectStoreRead objs e.objectName e.objectOffset e.length
    if errno = Err.success then ⟨errno, buf⟩ else ⟨errno, []⟩

def maxRawBodyLen : Nat := 4 * 1024 * 1024 + 1024

/-- The answer of `dispatch_read_request`, raw_tcp_server.cc:665-727; the
body has a header of 8 bytes. -/
def rawReadResponse (r : ReadReply) : RawStatus × Bytes :=
  if r.state ≠ Err.success then (rawStatusFromErrno r.state, [])
  else if r.data.length > maxRawBodyLen - 8 then (.internalError, [])
  else (.ok, r.data)

/-! ## The kernel client -/

/-- `kfastblock_transport_read_object` and
`kfastblock_transport_response_decode_read_object`. -/
def kernelReadResponse (e : Extent) (r : RawStatus × Bytes) : Option KErrno × Bytes :=
  match statusToErrno r.1 with
  | some err => (some err, [])
  | none =>
    if r.2.length > e.length then (some .eproto, [])
    else (none, r.2 ++ List.replicate (e.length - r.2.length) 0)

/-- `kfastblock_transport_normalize_object_ret` of a read. -/
def normalizeObjectRet (e : Extent) (r : Option KErrno × Bytes) : Option KErrno × Bytes :=
  if r.1 = some .enoent then (none, List.replicate e.length 0) else r

/-- `kfastblock_transport_run_object_attempts`, where `answer i` is what the
server sends in the `i`th of the attempts left. -/
def runObjectAttempts (e : Extent) (answer : Nat → RawStatus × Bytes) : Nat → Option KErrno × Bytes
  | 0 => (none, [])
  | attempts + 1 =>
    let r := normalizeObjectRet e (kernelReadResponse e (answer attempts))
    match r.1 with
    | none => r
    | some err => if err.retry ∧ attempts ≠ 0 then runObjectAttempts e answer attempts else r

/-- `KFASTBLOCK_OBJECT_IO_MAX_ATTEMPTS` -/
def maxAttempts : Nat := 2

def kernelReadObject (e : Extent) (answer : Nat → RawStatus × Bytes) : Option KErrno × Bytes :=
  runObjectAttempts e answer maxAttempts

/-! ## The C++ client -/

open Err in
/-- `should_retry_request`, fb_client.h:205-221. -/
def shouldRetryRequest (state : Int) : Bool :=
  [enolink, enoent, einval, raftErrNotLeader, raftErrNotFoundPg, raftErrPgShutdown, raftErrNoConnected,
    Err.osdDown, osdStarting, raftErrPgInitializing].contains state

/-- `process_response` of a reply to a read: the state and the data for the
callback, or `none` if the request is put back to be sent again. -/
def processResponse (failed : Bool) (r : ReadReply) : Option (Int × Bytes) :=
  let state := if failed then Err.enolink else r.state
  let data := if failed then [] else r.data
  if shouldRetryRequest state then none else some (state, data)

/-- What the callback gets if the request is sent at most `rounds` times;
`reply i` is the reply with `i` more to come. -/
def cppReadObject (reply : Nat → ReadReply) : Nat → Option (Int × Bytes)
  | 0 => none
  | rounds + 1 => (processResponse false (reply rounds)).or (cppReadObject reply rounds)

/-! ## What is read -/

/-- The bytes of the extent, zero where nothing has been written. -/
def Extent.stored (e : Extent) (objs : Objects) : Bytes :=
  match objs e.objectName with
  | some blob => (List.range e.length).map fun k => blob (e.objectOffset + k)
  | none => List.replicate e.length 0

/-- The extent lies in the blob of an object. -/
def Extent.Inside (e : Extent) : Prop := e.objectOffset + e.length ≤ blobSize

/-- Both clients take the leader's first answer for a read of the whole
extent. -/
def Extent.IsRead (e : Extent) (objs : Objects) : Prop :=
  kernelReadObject e (fun _ => rawReadResponse (readAndWait true objs e)) = (none, e.stored objs) ∧
    processResponse false (readAndWait true objs e) = some (Err.success, e.stored objs)

theorem readAndWait_some {objs : Objects} {e : Extent} {blob : Nat → UInt8} (h : objs e.objectName = some blob)
    (hin : e.Inside) : readAndWait true objs e = ⟨Err.success, e.stored objs⟩ := by
  have hle : ¬e.objectOffset + e.length > blobSize := Nat.not_lt.mpr hin
  simp only [readAndWait, objectStoreRead, h, if_neg hle, Extent.stored, Bool.not_true, Bool.false_eq_true,
    if_false, if_true, ReadReply.mk.injEq, true_and]
  exact List.map_congr_left fun k hk => if_pos (List.mem_range.mp hk)

theorem readAndWait_none {objs : Objects} {e : Extent} (h : objs e.objectName = none) :
    readAndWait true objs e = ⟨Err.enoent, []⟩ := by
  simp [readAndWait, objectStoreRead, h, Err.enoent, Err.success]

theorem length_stored (e : Extent) (objs : Objects) : (e.stored objs).length = e.length := by
  unfold Extent.stored
  split <;> simp

theorem kernelReadObject_ok {e : Extent} {data : Bytes} (hlen : data.length = e.length)
    (answer : Nat → RawStatus × Bytes) (h : ∀ i, answer i = (.ok, data)) :
    kernelReadObject e answer = (none, data) := by
  simp [kernelReadObject, maxAttempts, runObjectAttempts, h, kernelReadResponse, statusToErrno, hlen,
    normalizeObjectRet]

/-- The raw server has no status for an object that is not there. -/
theorem kernelReadObject_none {e : Extent} {objs : Nat → Objects} (h : ∀ i, objs i e.objectName = none) :
    kernelReadObject e (fun i => rawReadResponse (readAndWait true (objs i) e)) = (some .eio, []) := by
  simp only [readAndWait_none (h _)]
  rfl

/-- Every reply for an object that is not there sends the request again. -/
theorem cppReadObject_none {e : Extent} {objs : Nat → Objects} (h : ∀ i, objs i e.objectName = none) (rounds : Nat) :
    cppReadObject (fun i => readAndWait true (objs i) e) rounds = none := by
  induction rounds with
  | zero => rfl
  | succ rounds ih =>
    rw [cppReadObject, readAndWait_none (h rounds), ih]
    rfl

/-- An extent of an object that exists is read. An extent of one that has
never been written is an I/O error in the kernel client and is never
answered in the C++ client, however long nobody writes the object. -/
theorem read_object_iff (e : Extent) :
    (∀ objs : Objects, e.Inside → (e.IsRead objs ↔ (objs e.objectName).isSome)) ∧
    ∀ objs : Nat → Objects, (∀ i, objs i e.objectName = none) →
      kernelReadObject e (fun i => rawReadResponse (readAndWait true (objs i) e)) = (some .eio, []) ∧
      ∀ rounds, cppReadObject (fun i => readAndWait true (objs i) e) rounds = none := by
  refine ⟨fun objs hin => ?_, fun objs hnone => ⟨kernelReadObject_none hnone, cppReadObject_none hnone⟩⟩
  cases hobj : objs e.objectName with
  | none =>
    refine iff_of_false (fun hread => ?_) (by simp)
    rw [Extent.IsRead, kernelReadObject_none fun _ => hobj] at hread
    simp at hread
  | some blob =>
    refine iff_of_true ?_ rfl
    have hle : ¬e.length > maxRawBodyLen - 8 := by
      have : blobSize ≤ maxRawBodyLen - 8 := by decide
      have : e.objectOffset + e.length ≤ blobSize := hin
      omega
    rw [Extent.IsRead, readAndWait_some hobj hin]
    refine ⟨kernelReadObject_ok (length_stored e objs) _ fun _ => ?_, rfl⟩
    rw [rawReadResponse, if_neg (not_not.mpr rfl), length_stored, if_neg hle]

/-- The first block of image `a`. -/
def firstBlock : Extent := ⟨0, 0, 0, 512, cppObjectName 1 [97] 0⟩

/-- A block of an object that exists. -/
theorem read_object_zeroed : firstBlock.IsRead (fun _ => some fun _ => 0) :=
  ((read_object_iff firstBlock).1 (fun _ => some fun _ => 0) (by unfold Extent.Inside; decide)).mpr rfl

/-- The first block of an image of which nothing has been written: an I/O
error in the kernel client, and in the C++ client a request that is sent
again. -/
theorem unwritten_block_not_read :
    kernelReadObject firstBlock (fun _ => rawReadResponse (readAndWait true (fun _ => none) firstBlock)) =
        (some .eio, []) ∧
      processResponse false (readAndWait true (fun _ => none) firstBlock) = none := by
  decide +kernel

end Fastblock.L5
