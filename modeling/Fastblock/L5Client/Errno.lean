import Mathlib.Data.Nat.Notation

/-!
# Error numbers

The errors of the OSD (utils/err_num.h), the status of a raw response, the
errors of the kernel client and what it makes of them (transport.c:598-620,
recovery.c:29-121).
-/
namespace Fastblock.L5

namespace Err

def success : Int := 0
def enoent : Int := -2
def einval : Int := -22
def enolink : Int := -67
def raftErrNotLeader : Int := -135
def raftErrNotFoundLeader : Int := -143
def raftErrNotFoundPg : Int := -144
def raftErrPgShutdown : Int := -146
def raftErrNoConnected : Int := -147
def osdDown : Int := -149
def osdStarting : Int := -150
def raftErrPgInitializing : Int := -152
def raftErrMembershipChanging : Int := -153
def raftErrSnapshotWaitApply : Int := -154
def errNotFoundPool : Int := -162

end Err

inductive RawStatus
  | ok
  | invalidRequest
  | notFound
  | staleEpoch
  | retryLater
  | notLeader
  | pgInitializing
  | osdDown
  | internalError
  deriving DecidableEq, Repr

open Err in
/-- `raw_status_from_errno`, raw_tcp_server.cc:178-202. -/
def rawStatusFromErrno (state : Int) : RawStatus :=
  if state = success then .ok
  else if state = einval then .invalidRequest
  else if state = raftErrNotFoundPg ∨ state = errNotFoundPool then .notFound
  else if state = raftErrNotFoundLeader ∨ state = raftErrNoConnected ∨ state = raftErrMembershipChanging ∨
      state = raftErrSnapshotWaitApply then .retryLater
  else if state = raftErrNotLeader then .notLeader
  else if state = raftErrPgInitializing ∨ state = osdStarting then .pgInitializing
  else if state = Err.osdDown then .osdDown
  else .internalError

/-- The errors of the kernel client. -/
inductive KErrno
  | enoent
  | eio
  | e2big
  | eagain
  | enomem
  | ebusy
  | einval
  | epipe
  | enolink
  | eproto
  | eopnotsupp
  | econnreset
  | etimedout
  | ehostdown
  | ealready
  | estale
  | ecanceled
  /-- any other number -/
  | other (errno : Nat)
  deriving DecidableEq, Repr

/-- `kfastblock_transport_status_to_errno`, transport.c:598-620; `none` is
0. -/
def statusToErrno : RawStatus → Option KErrno
  | .ok => none
  | .invalidRequest => some .einval
  | .notFound => some .enoent
  | .staleEpoch => some .estale
  | .retryLater => some .eagain
  | .notLeader => some .enolink
  | .pgInitializing => some .eagain
  | .osdDown => some .ehostdown
  | .internalError => some .eio

/-- Whether `kfastblock_recovery_classify_object_failure` asks for a
retry. -/
def KErrno.retry : KErrno → Bool
  | .enolink | .eagain | .ehostdown | .etimedout | .econnreset | .epipe => true
  | _ => false

/-- `kfastblock_recovery_prefetch_should_fail_request`. -/
def KErrno.prefetchFails : KErrno → Bool
  | .einval | .enomem | .e2big | .eopnotsupp | .enoent => true
  | _ => false

inductive BlkStatus
  | ok
  | resource
  | transport
  | ioerr
  deriving DecidableEq, Repr

/-- `kfastblock_recovery_errno_to_blk_status`. -/
def errnoToBlkStatus : Option KErrno → BlkStatus
  | none => .ok
  | some .eagain | some .estale | some .ebusy => .resource
  | some .ehostdown | some .enolink | some .etimedout | some .econnreset | some .epipe => .transport
  | some _ => .ioerr

end Fastblock.L5
