import Fastblock.L3Raft.Log

/-!
# The server: state, effects, elections

The state of one `raft_server_t` and the election half of
src/raft/raft_server.cc. A handler is a function `Node → Node`; what it
sends, writes to the key-value store, completes or applies is appended to
`out`. Work handed to the disk or to the object store is put in `pending`,
and its completion is a later step. `Env` is what a call reads from
outside: the clock, `rand()` and which connections exist.

The release builds compile `assert` away, so asserts have no effect here.
-/
namespace Fastblock.L3.Raft

structure Env where
  now : Int
  rand : Nat
  connected : Nat → Bool

/-- Keys of the key-value store and what is put there (raft.h:556-600). -/
inductive KvPut where
  | voteFor (id : Nat)
  | term (t : Nat)
  | lapplyIdx (i : Nat)
  deriving DecidableEq, Repr

inductive Out where
  | send (m : Msg)
  | put (kv : KvPut)
  | complete (client : Nat) (res : Int)
  | apply (idx : Nat) (e : Entry)
  | leaderElected (term : Nat) (osds newOsds : List Nat)
  deriving DecidableEq, Repr

/-- The append_entries call in progress: `_in_progress` of the append
buffer, the request and the response being filled in. -/
structure AeCall where
  src : Nat
  hb : Bool
  req : AppendEntries
  r : AppendEntriesReply
  deriving DecidableEq, Repr

/-- Asynchronous work started and not finished. -/
inductive Pending where
  /-- `disk_append_complete`: the leader's batch -/
  | diskAppend (first last : Nat) (entries : List Entry)
  /-- `follow_disk_append_complete` -/
  | followAppend (first last commit : Nat) (entries : List Entry)
  /-- truncation after a conflict at `prev_log_idx` -/
  | truncatePrev
  /-- truncation after a conflict at entry number `i` of the request -/
  | truncateEntry (i : Nat)
  /-- disk read of `do_recovery`, for the node and next index it was
  started for -/
  | recoveryRead (node : Nat) (next : Nat) (entries : List Entry)
  /-- `raft_get_entry_by_idx` from disk -/
  | applyRead (idx : Nat) (entry : Option Entry)
  /-- an entry handed to `state_machine::apply` -/
  | applying (idx : Nat)
  /-- `recovery_create` of `_recovery_by_snapshot` -/
  | snapCreate (node : Nat)
  /-- objects being read for a snapshot_check call -/
  | checkRead (src : Nat) (r : SnapshotCheckReply)
  /-- recovery copies being read for installsnapshot; the follower's
  hashes -/
  | snapRead (node : Nat) (checks : List ObjectCheck)
  /-- objects of an installsnapshot being written -/
  | snapWrite (src : Nat) (done : Bool) (index : Nat) (r : InstallSnapshotReply)
  /-- `set_disk_log_index` at the end of an installsnapshot -/
  | snapSetIndex (src : Nat) (index : Nat) (r : InstallSnapshotReply)
  /-- `recovery_delete`; `recover` says that recovery goes on afterwards -/
  | snapDelete (node : Nat) (recover : Bool)
  deriving DecidableEq, Repr

/-- `object_recovery`: the names captured and the iterator
(object_recovery.h:42-157). -/
structure Obr where
  names : List String
  iter : Nat
  deriving DecidableEq, Repr

/-- `raft_server_t` with the fields of its state machine. -/
structure Node where
  nodeId : Nat
  currentTerm : Nat := 0
  votedFor : Option Nat := none
  identity : Identity := .follower
  prevote : Bool := false
  leaderId : Option Nat := none
  commitIdx : Nat := 0
  firstIdx : Nat := 0
  currentIdx : Nat := 0
  electionTimer : Int := 0
  electionTimeout : Int := 1000
  electionTimeoutRand : Int := 1000
  heartbeatTimeout : Int := 200
  leaseMaintenanceGrace : Int := 0
  startTime : Int := 0
  firstStart : Bool := false
  opState : OpState := .active
  nodes : List RaftNode := []
  newNodes : List RaftNode := []
  log : RaftLog := {}
  lastApplied : Nat := 0
  applyInProgress : Bool := false
  lastSaveIndex : Nat := 0
  lastSaveTime : Int := 0
  snapshotInProgress : Bool := false
  snapshotIndex : Nat := 0
  snapshotTerm : Nat := 0
  obr : Option Obr := none
  tasks : List Nat := []
  aeCall : Option AeCall := none
  pending : List Pending := []
  out : List Out := []

namespace Node

def isLeader (n : Node) : Bool := n.identity = .leader
def isCandidate (n : Node) : Bool := n.identity = .candidate
def isFollower (n : Node) : Bool := n.identity = .follower
def isSelf (n : Node) (p : RaftNode) : Bool := p.id = n.nodeId

def emit (n : Node) (os : List Out) : Node := { n with out := n.out ++ os }

/-- `_nodes_stat.for_all_node`, raft_node.h:214-224 -/
def allNodes (n : Node) : List RaftNode := n.nodes ++ n.newNodes

def mapNodes (n : Node) (f : RaftNode → RaftNode) : Node :=
  { n with nodes := n.nodes.map f, newNodes := n.newNodes.map f }

/-- Change what is kept about node `i`. A node that is an old and a new
member is one object. -/
def updNode (n : Node) (i : Nat) (f : RaftNode → RaftNode) : Node :=
  n.mapNodes fun p => if p.id = i then f p else p

/-- `raft_get_node`, and `raft_get_cfg_node` while no membership change is
in progress; raft.h:262-269, 663-681 -/
def getNode (n : Node) (i : Nat) : Option RaftNode :=
  (n.nodes.find? (·.id = i)).or (n.newNodes.find? (·.id = i))

/-! ## Term, vote, role -/

/-- mirrors raft_server.cc:2661-2674; the vote is reset in memory only -/
def setCurrentTerm (n : Node) (t : Nat) : Node :=
  if n.currentTerm < t then
    { n with currentTerm := t, votedFor := none, out := n.out ++ [.put (.term t)] }
  else n

/-- mirrors raft_server.cc:1678-1685 -/
def voteForNodeid (n : Node) (i : Nat) : Node :=
  { n with votedFor := some i, out := n.out ++ [.put (.voteFor i)] }

def setLeader (n : Node) (l : Option Nat) : Node := { n with leaderId := l }

def setElectionTimer (n : Node) (t : Int) : Node := { n with electionTimer := t }

/-- mirrors raft.h:79-82 -/
def randomizeElectionTimeout (n : Node) (env : Env) : Node :=
  { n with electionTimeoutRand := n.electionTimeout + (env.rand : Int) % n.electionTimeout }

/-- mirrors raft_server.cc:233-240 -/
def becomeFollower (n : Node) (env : Env) : Node :=
  ({ n with identity := .follower }.randomizeElectionTimeout env).setElectionTimer env.now

/-! ## Sending -/

/-- mirrors raft_server.cc:1473-1500 -/
def requestVoteMsg (n : Node) : RequestVote where
  nodeId := n.nodeId
  term := n.currentTerm
  candidateId := n.nodeId
  lastLogIdx := n.currentIdx
  lastLogTerm := (n.log.entryTerm n.currentIdx).getD 0
  prevote := n.prevote

def sendRequestVotes (n : Node) : Node :=
  n.emit ((n.allNodes.filter fun p => !n.isSelf p).map fun p => .send (.requestVote p.id n.requestVoteMsg))

/-- mirrors raft_server.cc:1542-1573, the message -/
def createAppendentries (n : Node) (next : Nat) : AppendEntries where
  nodeId := n.nodeId
  term := n.currentTerm
  prevLogIdx := next - 1
  prevLogTerm := (n.log.entryTerm (next - 1)).getD 0
  leaderCommit := n.commitIdx
  entries := []

/-- mirrors raft_server.cc:1542-1593, what is kept about the target: the
heartbeat stays suppressed only if the message went out -/
def appendSent (p : RaftNode) (env : Env) : RaftNode :=
  { p with suppressHeartbeats := env.connected p.id, appendTime := env.now }

def appendOut (env : Env) (dst : Nat) (m : AppendEntries) : List Out :=
  if env.connected dst then [.send (.appendEntries dst false m)] else []

/-- mirrors raft_server.cc:1502-1513, 1575-1593: `[first, last]` from the
cache -/
def appendRange (n : Node) (first last : Nat) : AppendEntries :=
  { n.createAppendentries first with entries := n.log.cache.getNum first (last + 1 - first) }

/-! ## Elections -/

/-- mirrors raft_server.cc:925-938 -/
def votesIsMajority (nodeNum newNodeNum nodeVotes newNodeVotes : Nat) : Bool :=
  if nodeNum < nodeVotes || newNodeNum < newNodeVotes then false
  else nodeNum / 2 + 1 ≤ nodeVotes && (newNodeNum = 0 || newNodeNum / 2 + 1 ≤ newNodeVotes)

/-- `raft_get_nvotes_for_me` against `raft_get_num_voting_nodes`,
raft_server.cc:1655-1676 -/
def hasMajorityVotes (n : Node) : Bool :=
  votesIsMajority n.nodes.length n.newNodes.length
    (n.nodes.countP (·.voteForMe)) (n.newNodes.countP (·.voteForMe))

/-- What becoming leader sets for a peer, raft_server.cc:97-108 -/
def leaderPeer (n : Node) (env : Env) (p : RaftNode) : RaftNode :=
  let p := { p with matchIdx := 0 }
  if n.isSelf p then p
  else appendSent { p.setNextIdx (n.currentIdx + 1) with effectiveTime := env.now } env

/-- mirrors raft_server.cc:85-111. The commit index jumps to the end of
the server's own log. -/
def becomeLeader (n : Node) (env : Env) : Node :=
  let n := { n with
    identity := .leader, leaderId := some n.nodeId, electionTimer := env.now, commitIdx := n.currentIdx }
  let first := n.currentIdx + 1
  let msgs := (n.allNodes.filter fun p => !n.isSelf p).flatMap fun p =>
    appendOut env p.id (n.appendRange first first)
  ((n.mapNodes (n.leaderPeer env)).emit msgs).emit
    [.leaderElected n.currentTerm (n.nodes.map (·.id)) (n.newNodes.map (·.id))]

/-- The vote flags of a new round: only the server's own is set. -/
def resetVotes (n : Node) : Node := n.mapNodes fun p => { p with voteForMe := n.isSelf p }

/-- mirrors raft_server.cc:197-231. `raft_count_votes` at the end finds
`_prevote` cleared. -/
def becomePrevotedCandidate (n : Node) (env : Env) : Node :=
  let n := ((n.setCurrentTerm (n.currentTerm + 1)).resetVotes).voteForNodeid n.nodeId
  let n := { n with prevote := false }.sendRequestVotes
  if n.hasMajorityVotes then n.becomeLeader env else n

/-- mirrors raft_server.cc:142-161 -/
def countVotes (n : Node) (env : Env) : Node :=
  if n.hasMajorityVotes then
    if n.prevote then n.becomePrevotedCandidate env else n.becomeLeader env
  else n

/-- mirrors raft_server.cc:163-195 -/
def becomeCandidate (n : Node) (env : Env) : Node :=
  let n := { n with identity := .candidate, prevote := true }.resetVotes
  let n := ((n.setLeader none).randomizeElectionTimeout env).setElectionTimer env.now
  n.sendRequestVotes.countVotes env

/-- mirrors raft_service.h:358-403: a timeout_now request raises the term
and starts an election, whoever sent it -/
def recvTimeoutNow (n : Node) (env : Env) : Node :=
  if n.opState.toErrno ≠ 0 then n
  else (n.setCurrentTerm (n.currentTerm + 1)).becomeCandidate env

/-! ## Leases -/

/-- mirrors raft_server.cc:242-270 -/
def hasLease (n : Node) (p : RaftNode) (now : Int) (withGrace : Bool) : Bool :=
  n.isSelf p ||
    if withGrace then
      now < p.lease + n.leaseMaintenanceGrace ||
        now - p.effectiveTime < n.electionTimeout + n.leaseMaintenanceGrace
    else now < p.lease

/-- mirrors raft_server.cc:272-297 -/
def hasMajorityLeases (n : Node) (now : Int) (withGrace : Bool) : Bool :=
  n.nodes.length / 2 + 1 ≤ n.nodes.countP (n.hasLease · now withGrace) &&
    (n.newNodes.length = 0 ||
      n.newNodes.length / 2 + 1 ≤ n.newNodes.countP (n.hasLease · now withGrace))

/-- mirrors raft_server.cc:324-349, without the task loop -/
def periodicElection (n : Node) (env : Env) : Node :=
  if n.isLeader then
    if n.hasMajorityLeases env.now true then n
    else (n.becomeFollower env).setLeader none
  else if n.electionTimeoutRand ≤ env.now - n.electionTimer && !n.snapshotInProgress &&
      (n.getNode n.nodeId).isSome then
    n.becomeCandidate env
  else n

/-! ## Votes -/

/-- mirrors raft_server.cc:806-834 -/
def shouldGrantVote (n : Node) (vr : RequestVote) : Bool :=
  if vr.term < n.currentTerm then false
  else if !vr.prevote && n.votedFor ≠ none && n.votedFor ≠ some vr.candidateId then false
  else
    let term := (n.log.entryTerm n.currentIdx).getD 0
    term < vr.lastLogTerm || (vr.lastLogTerm = term && n.currentIdx ≤ vr.lastLogIdx)

/-- The server has a leader it heard from recently, or has just started,
raft_server.cc:868-871 -/
def rejectsVotes (n : Node) (now : Int) (vr : RequestVote) : Bool :=
  n.isLeader ||
    (n.leaderId ≠ none && n.leaderId ≠ some vr.candidateId && now - n.electionTimer < n.electionTimeout) ||
    (!n.firstStart && now - n.startTime < n.electionTimeout)

def voteReply (n : Node) (vr : RequestVote) (g : VoteGranted) : Node :=
  n.emit [.send (.requestVoteReply vr.nodeId ⟨n.nodeId, n.currentTerm, g, vr.prevote⟩)]

/-- A higher term in a message makes the server a follower of that term. -/
def stepDownTo (n : Node) (env : Env) (t : Nat) : Node :=
  if n.currentTerm < t then ((n.setCurrentTerm t).becomeFollower env).setLeader none else n

/-- mirrors raft_server.cc:877-910 -/
def decideVote (n : Node) (env : Env) (vr : RequestVote) : Node :=
  if n.rejectsVotes env.now vr then n.voteReply vr .notGranted
  else if n.shouldGrantVote vr then
    if vr.prevote then n.voteReply vr .granted
    else (((n.voteForNodeid vr.candidateId).setLeader none).setElectionTimer env.now).voteReply vr .granted
  else if ((n.getNode vr.nodeId).or (n.getNode vr.candidateId)).isNone then n.voteReply vr .unknownNode
  else n.voteReply vr .notGranted

/-- mirrors raft_server.cc:836-923 and the service,
raft_service.h:122-158 -/
def recvRequestvote (n : Node) (env : Env) (vr : RequestVote) : Node :=
  if n.opState.toErrno ≠ 0 then
    n.emit [.send (.requestVoteReply vr.nodeId ⟨n.nodeId, 0, .notGranted, vr.prevote⟩)]
  else (n.stepDownTo env vr.term).decideVote env vr

/-- mirrors raft_server.cc:940-995 -/
def processRequestvoteReply (n : Node) (env : Env) (r : RequestVoteReply) : Node :=
  if !n.isCandidate || n.prevote ≠ r.prevote then n
  else if n.currentTerm < r.term then n.stepDownTo env r.term
  else if n.currentTerm ≠ r.term then n
  else
    match r.voteGranted with
    | .granted => (n.updNode r.nodeId fun p => { p with voteForMe := true }).countVotes env
    | .notGranted => n
    | .unknownNode => n

end Node
end Fastblock.L3.Raft
