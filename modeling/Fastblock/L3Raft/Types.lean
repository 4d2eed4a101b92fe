import Mathlib.Data.List.Basic

/-!
# Raft data: entries, messages, peers

The records of `src/raft/raft_types.h`, `src/raft/raft_node.h` and the
protobuf messages of the raft service, with the error numbers of
`include/fastblock/utils/err_num.h` that the raft code compares against.
Node ids, terms and indices are naturals; `-1` ("nobody") is `none`. Times
are milliseconds. Pool and pg ids are left out: one raft group is
modelled.
-/
namespace Fastblock.L3.Raft

abbrev Bytes := List UInt8

/-! ## Error numbers (include/fastblock/utils/err_num.h:19-63) -/

def errInval : Int := -22
def errNoSpc : Int := -28
def errNotLeader : Int := -135
def errShutdown : Int := -137
def errNotFoundPg : Int := -144
def errLogNotMatch : Int := -145
def errPgShutdown : Int := -146
def errPgDeleted : Int := -148
def errPgInitializing : Int := -152
def errSnapshotWaitApply : Int := -154
def errUnknown : Int := -199

/-! ## Roles and entries -/

/-- `raft_identity`, raft.h:50-55 -/
inductive Identity where
  | follower | candidate | leader
  deriving DecidableEq, Repr

/-- `raft_op_state`, raft.h:57-62 -/
inductive OpState where
  | init | active | down | delete
  deriving DecidableEq, Repr

/-- mirrors raft_server.cc:34-47 -/
def OpState.toErrno : OpState → Int
  | .init => errPgInitializing
  | .down => errPgShutdown
  | .delete => errPgDeleted
  | .active => 0

/-- `RAFT_LOGTYPE_*` -/
inductive LogType where
  | write | delete | addNonvotingNode | configuration
  deriving DecidableEq, Repr

/-- `raft_entry_t` -/
structure Entry where
  term : Nat
  idx : Nat
  type : LogType
  metadata : Bytes
  data : Bytes
  deriving DecidableEq, Repr

/-- `raft_entry_is_cfg_change`, raft_server.cc:1693-1697 -/
def Entry.isCfgChange (e : Entry) : Bool :=
  e.type = .addNonvotingNode || e.type = .configuration

/-! ## Messages -/

/-- `msg_requestvote_t` -/
structure RequestVote where
  nodeId : Nat
  term : Nat
  candidateId : Nat
  lastLogIdx : Nat
  lastLogTerm : Nat
  prevote : Bool
  deriving DecidableEq, Repr

/-- `RAFT_REQUESTVOTE_ERR_*`, raft.h:916-918 -/
inductive VoteGranted where
  | granted | notGranted | unknownNode
  deriving DecidableEq, Repr

/-- `msg_requestvote_response_t` -/
structure RequestVoteReply where
  nodeId : Nat
  term : Nat
  voteGranted : VoteGranted
  prevote : Bool
  deriving DecidableEq, Repr

/-- `msg_appendentries_t`; a heartbeat is the same message without
entries. -/
structure AppendEntries where
  nodeId : Nat
  term : Nat
  prevLogIdx : Nat
  prevLogTerm : Nat
  leaderCommit : Nat
  entries : List Entry
  deriving DecidableEq, Repr

/-- `msg_appendentries_response_t`; `success` is 1, 0 or an error number. -/
structure AppendEntriesReply where
  nodeId : Nat
  term : Nat := 0
  success : Int := 0
  currentIdx : Nat := 0
  firstIdx : Nat := 0
  lease : Int := 0
  deriving DecidableEq, Repr

/-- `object_data_info` -/
structure ObjectData where
  objName : String
  data : Bytes
  deriving DecidableEq, Repr

/-- `object_check_info` -/
structure ObjectCheck where
  objName : String
  exist : Bool
  dataHash : Bytes
  deriving DecidableEq, Repr

/-- `snapshot_check_request` -/
structure SnapshotCheck where
  nodeId : Nat
  term : Nat
  objectNames : List String
  deriving DecidableEq, Repr

/-- `snapshot_check_response` -/
structure SnapshotCheckReply where
  nodeId : Nat
  term : Nat := 0
  success : Int := 0
  lease : Int := 0
  objects : List ObjectCheck := []
  deriving DecidableEq, Repr

/-- `installsnapshot_request` -/
structure InstallSnapshot where
  nodeId : Nat
  term : Nat
  lastIdx : Nat
  lastTerm : Nat
  done : Bool
  objects : List ObjectData
  deriving DecidableEq, Repr

/-- `installsnapshot_response` -/
structure InstallSnapshotReply where
  nodeId : Nat
  term : Nat := 0
  success : Int := 0
  lease : Int := 0
  deriving DecidableEq, Repr

/-- A message with its target. `hb` tells a heartbeat and its reply from
an append_entries call: both reach the same handlers, with `is_heartbeat`
set. -/
inductive Msg where
  | requestVote (dst : Nat) (m : RequestVote)
  | requestVoteReply (dst : Nat) (m : RequestVoteReply)
  | appendEntries (dst : Nat) (hb : Bool) (m : AppendEntries)
  | appendEntriesReply (dst : Nat) (hb : Bool) (m : AppendEntriesReply)
  | snapshotCheck (dst : Nat) (m : SnapshotCheck)
  | snapshotCheckReply (dst : Nat) (m : SnapshotCheckReply)
  | installSnapshot (dst : Nat) (m : InstallSnapshot)
  | installSnapshotReply (dst : Nat) (m : InstallSnapshotReply)
  deriving DecidableEq, Repr

/-! ## Peers -/

/-- `raft_node`, raft_node.h:22-169: what a server keeps about a member. -/
structure RaftNode where
  id : Nat
  nextIdx : Nat := 1
  matchIdx : Nat := 0
  voteForMe : Bool := false
  lease : Int := 0
  effectiveTime : Int := 0
  suppressHeartbeats : Bool := false
  appendTime : Int := 0
  recovering : Bool := false
  endIdx : Nat := 0
  deriving DecidableEq, Repr

namespace RaftNode

/-- mirrors raft_node.h:49-53 -/
def setNextIdx (p : RaftNode) (i : Nat) : RaftNode := { p with nextIdx := if i < 1 then 1 else i }

/-- mirrors raft_node.h:87-91 -/
def setLease (p : RaftNode) (t : Int) : RaftNode := { p with lease := if p.lease < t then t else p.lease }

end RaftNode
end Fastblock.L3.Raft
