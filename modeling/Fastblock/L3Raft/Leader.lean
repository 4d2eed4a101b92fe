import Fastblock.L3Raft.Append

/-!
# The leader: client entries, replication, commit, recovery

`raft_write_entry`, `raft_flush`, `raft_node_process_commit`,
`raft_process_appendentries_reply`, `dispatch_recovery` and `do_recovery`
of src/raft/raft_server.cc, the heartbeat of src/raft/pg_group.cc, and the
state machine's apply loop (src/raft/state_machine.cc), for a server whose
membership is not being changed.
-/
namespace Fastblock.L3.Raft

/-! ## The decision on an appendentries reply

The part of `raft_process_appendentries_reply` that reads only the peer
and the reply, kept apart from what is then done: the configuration
manager takes other actions on the same decision. -/

inductive ReplyAct where
  | ignore
  /-- `process_response(result, node->raft_get_end_idx())` -/
  | respond (result : Int)
  /-- a higher term: step down, then
  `process_response(RAFT_ERR_NOT_LEADER, ..)` -/
  | stepDown
  | recover
  /-- success with `current_idx == match_idx` -/
  | same
  /-- `process_response(0, r->current_idx())` -/
  | commit
  deriving DecidableEq, Repr

/-- The action reports an error to `process_response`. -/
def ReplyAct.Errs (a : ReplyAct) : Prop := (∃ x, a = .respond x) ∨ a = .stepDown

/-- `r->success()` is one of the errors answered before the term is looked
at, raft_server.cc:434-449 -/
def isPeerError (s : Int) : Bool :=
  s = errNotFoundPg || s = errNoSpc || s = errShutdown || s = errPgShutdown ||
    s = errPgInitializing || s = errPgDeleted

/-- mirrors raft_server.cc:426-548 -/
def replyDecide (isLeader : Bool) (currentTerm : Nat) (p : RaftNode) (r : AppendEntriesReply)
    (hb : Bool) : RaftNode × ReplyAct :=
  let p := { p with suppressHeartbeats := false }
  if !isLeader then (p, .respond errNotLeader)
  else if isPeerError r.success then (p, .respond r.success)
  else if currentTerm < r.term then (p, .stepDown)
  else if currentTerm ≠ r.term then (p, .ignore)
  else if r.success = errInval then
    (p.setNextIdx (r.currentIdx + 1), if p.recovering then .ignore else .recover)
  else if r.success = errLogNotMatch then (p.setNextIdx (r.currentIdx + 1), .recover)
  else if r.success ≠ 1 ∧ r.success ≠ 0 then (p, .respond r.success)
  else
    let p := p.setLease r.lease
    if r.success = 0 then
      if p.recovering then
        (if r.currentIdx < p.nextIdx then p.setNextIdx (r.currentIdx + 1) else p, .recover)
      else
        (p.setNextIdx (r.currentIdx + 1),
          if r.currentIdx < r.firstIdx - 1 then .recover else .respond errUnknown)
    else if r.currentIdx < p.matchIdx ∧ !p.recovering then (p, .ignore)
    else if r.currentIdx = p.matchIdx ∧ !p.recovering then (p, .same)
    else
      ({ p.setNextIdx (r.currentIdx + 1) with matchIdx := r.currentIdx },
        if p.recovering then .recover else if hb then .ignore else .commit)

namespace Node

/-! ## Client entries -/

/-- mirrors raft_server.cc:1086-1129 for write and delete entries -/
def writeEntry (n : Node) (e : Entry) (client : Nat) : Node :=
  if !n.isLeader then n.emit [.complete client errNotLeader]
  else if n.opState = .down then n.emit [.complete client errPgShutdown]
  else if n.opState = .delete then n.emit [.complete client errPgDeleted]
  else { n with log := n.log.enqueue { e with term := n.currentTerm } (some (.client client)) }

/-- mirrors raft_log.h:227-235 -/
def clearEntryQueue (n : Node) (state : Int) : Node :=
  let waiting := n.log.queue.filterMap (·.2)
  { n with log := { n.log with queue := [] } }.completeCtxs state waiting

/-- mirrors raft_server.cc:1131-1143 -/
def stopFlush (n : Node) (state : Int) : Node :=
  let last := n.log.cache.getLastCacheEntry
  if last ≤ n.currentIdx then n.clearEntryQueue state
  else
    let n := n.writeEntryFinish (n.currentIdx + 1) last state
    let cache := n.log.cache.removeEntryBetween (n.currentIdx + 1) last
    { n with log := { n.log with cache := cache } }.clearEntryQueue state

/-- mirrors raft_server.cc:1145-1150 -/
def stopProcessingEntrys (n : Node) (state : Int) : Node :=
  let n := n.writeEntryFinish n.firstIdx n.currentIdx state
  let cache := n.log.cache.removeEntryBetween n.firstIdx n.currentIdx
  { n with log := { n.log with cache := cache } }

/-- mirrors raft_server.cc:1616-1629 -/
def stop (n : Node) : Node :=
  ({ n with opState := .down }.stopProcessingEntrys errPgShutdown).stopFlush errPgShutdown

/-- What sending a batch sets for a peer, raft_server.cc:1238-1255 -/
def flushPeer (n : Node) (env : Env) (p : RaftNode) : RaftNode :=
  if n.isSelf p || p.recovering then p else appendSent { p with endIdx := n.currentIdx } env

/-- mirrors raft_server.cc:1222-1259. Without an entry at `_first_idx` the
code reads through a null pointer; nothing is modelled of it. -/
def flushBatch (n : Node) (env : Env) (last : Nat) : Node :=
  let first := n.currentIdx + 1
  match n.log.cache.get first with
  | none => n
  | some _ =>
    let n := { n with firstIdx := first, currentIdx := last }
    let msgs := (n.allNodes.filter fun p => !(n.isSelf p || p.recovering)).flatMap fun p =>
      appendOut env p.id (n.appendRange first last)
    let n := (n.mapNodes (n.flushPeer env)).emit msgs
    { n with
      electionTimer := env.now
      pending := n.pending ++ [.diskAppend first last (n.diskEntries first last)] }

/-- mirrors raft_server.cc:1187-1259. The recursive call after the queue
was moved to the cache finds the queue empty. -/
def flush (n : Node) (env : Env) : Node :=
  if !n.isLeader then n.stopFlush errNotLeader
  else if n.opState = .down then n.stopFlush errPgShutdown
  else if n.opState = .delete then n.stopFlush errPgDeleted
  else
    let last := n.log.cache.getLastCacheEntry
    if last = n.currentIdx ∨ last = 0 then
      let (count, lg) := n.log.entryQueueFlush
      let last := lg.cache.getLastCacheEntry
      if count = 0 then n
      else if last = n.currentIdx ∨ last = 0 then { n with log := lg }
      else { n with log := lg }.flushBatch env last
    else n.flushBatch env last

/-- mirrors raft_server.cc:1173-1184 -/
def raftTask (n : Node) (env : Env) : Node :=
  if !n.isLeader then n
  else if n.commitIdx < n.currentIdx then n
  else n.flush env

/-! ## Commit -/

/-- `commit_func` sets the server's own match index,
raft_server.cc:1015-1018 -/
def ownMatch (n : Node) (index : Nat) (node : Nat) : Node :=
  if node = n.nodeId then n.updNode node fun p => { p with matchIdx := index } else n

/-- A peer is counted for `index`: it holds the index, or the call reports
an error of that peer, raft_server.cc:1020-1028 -/
def countsFor (result : Int) (index : Nat) (node : Nat) (p : RaftNode) : Bool :=
  index ≤ p.matchIdx || (result ≠ 0 && p.id = node)

/-- mirrors raft_server.cc:1009-1062 -/
def nodeProcessCommit (n : Node) (result : Int) (index : Nat) (node : Nat) : Node :=
  let n := n.ownMatch index node
  let votes := n.nodes.countP (countsFor result index node)
  let newVotes := n.newNodes.countP (countsFor result index node)
  let leaderMatch := n.allNodes.any fun p => n.isSelf p && index ≤ p.matchIdx
  if n.commitIdx < index && leaderMatch && n.nodes.length / 2 < votes &&
      (n.newNodes.length = 0 || n.newNodes.length / 2 < newVotes) then
    { n with commitIdx := index }
  else n

/-- mirrors raft_server.cc:1064-1066 after disk_log.h:189-216 -/
def diskAppendDone (n : Node) (last : Nat) (es : List Entry) (res : Int) : Node :=
  let n := if res = 0 then { n with log := { n.log with disk := n.log.disk.append es } } else n
  n.nodeProcessCommit res last n.nodeId

/-! ## Recovery -/

/-- `recovery_max_entry_num` -/
def recoveryMaxEntryNum : Nat := 100

/-- mirrors raft_server.cc:2429-2440, 2478-2495: `next` entries from here on
are sent with the peer's next index as it is now -/
def sendRecoveryEntries (n : Node) (env : Env) (node : Nat) (es : List Entry) : Node :=
  match n.getNode node with
  | none => n
  | some p =>
    ((n.updNode node (appendSent · env)).emit
      (appendOut env node { n.createAppendentries p.nextIdx with entries := es })).setElectionTimer env.now

/-- The start of `_recovery_by_snapshot`, raft_server.cc:2422-2430 -/
def recoveryBySnapshot (n : Node) (node : Nat) : Node :=
  let n := n.updNode node fun p => { p with suppressHeartbeats := true }
  { n with
    snapshotInProgress := true
    obr := some ⟨[], 0⟩
    pending := n.pending ++ [.snapCreate node] }

/-- mirrors raft_server.cc:2466-2530 -/
def doRecovery (n : Node) (env : Env) (p : RaftNode) : Node :=
  let next := p.nextIdx
  if next < n.log.disk.lowestIndex then n.recoveryBySnapshot p.id
  else
    let inCache := match n.log.firstLogInCache with
      | none => false
      | some first => first ≤ next
    if inCache then
      n.sendRecoveryEntries env p.id
        (n.log.cache.getNum next (min recoveryMaxEntryNum (n.currentIdx + 1 - next)))
    else
      let last := match n.log.firstLogInCache with
        | none => n.currentIdx
        | some first => min n.currentIdx (first - 1)
      let num := min recoveryMaxEntryNum (last + 1 - next)
      match n.log.disk.read next (next + num - 1) with
      | none => n.sendRecoveryEntries env p.id []
      | some es => { n with pending := n.pending ++ [.recoveryRead p.id next es] }

/-- A snapshot is started, entries are sent, or entries are read from the
disk to be sent. -/
theorem doRecovery_cases (n : Node) (env : Env) (p : RaftNode) :
    n.doRecovery env p = n.recoveryBySnapshot p.id ∨
    (∃ k, n.doRecovery env p = n.sendRecoveryEntries env p.id (n.log.cache.getNum p.nextIdx k)) ∨
    ∃ last es, n.log.disk.read p.nextIdx last = some es ∧
      n.doRecovery env p = { n with pending := n.pending ++ [.recoveryRead p.id p.nextIdx es] } := by
  unfold doRecovery
  dsimp only
  split
  · exact .inl rfl
  · right
    cases n.log.firstLogInCache with
    | none =>
      dsimp only
      rw [if_neg Bool.false_ne_true]
      split
      · exact .inl ⟨0, rfl⟩
      · next hd => exact .inr ⟨_, _, hd, rfl⟩
    | some first =>
      dsimp only
      split
      · exact .inl ⟨_, rfl⟩
      split
      · exact .inl ⟨0, rfl⟩
      · next hd => exact .inr ⟨_, _, hd, rfl⟩

/-- mirrors raft_server.cc:2532-2570 while no membership change is in
progress -/
def dispatchRecovery (n : Node) (env : Env) (node : Nat) : Node :=
  match n.getNode node with
  | none => n
  | some p =>
    let off := n.updNode node fun p => { p with recovering := false }
    if !n.isLeader then off
    else if n.opState = .down || n.opState = .delete then off
    else if p.matchIdx = n.currentIdx then off
    else (n.updNode node fun p => { p with recovering := true }).doRecovery env p

/-- `process_response` of raft_server.cc:396-424 while no membership
change is in progress -/
def processResponse (n : Node) (result : Int) (point : Nat) (p : RaftNode) : Node :=
  if p.recovering && result ≠ 0 then n.updNode p.id fun p => { p with recovering := false }
  else if point ≠ 0 ∧ n.commitIdx < point ∧ n.log.entryTerm point = some n.currentTerm then
    n.nodeProcessCommit result point p.id
  else n

/-- mirrors raft_server.cc:372-557 while no membership change is in
progress -/
def processAppendentriesReply (n : Node) (env : Env) (hb : Bool) (r : AppendEntriesReply) : Node :=
  match n.getNode r.nodeId with
  | none => n
  | some p =>
    let d := replyDecide n.isLeader n.currentTerm p r hb
    let n := n.updNode r.nodeId fun p => (replyDecide n.isLeader n.currentTerm p r hb).1
    match d.2 with
    | .ignore => n
    | .same => n
    | .respond result => n.processResponse result d.1.endIdx d.1
    | .stepDown => (n.stepDownTo env r.term).processResponse errNotLeader d.1.endIdx d.1
    | .recover => n.dispatchRecovery env r.nodeId
    | .commit => n.processResponse 0 r.currentIdx d.1

/-! ## Heartbeats -/

/-- Whether a heartbeat is due for a peer, pg_group.cc:178-197 -/
def heartbeatDue (n : Node) (env : Env) (p : RaftNode) : Bool :=
  !n.isSelf p && !p.suppressHeartbeats && p.appendTime + n.heartbeatTimeout ≤ env.now

/-- mirrors pg_group.cc:199-220: nothing is sent when the entry before the
peer's next index is gone -/
def heartbeatOut (n : Node) (p : RaftNode) : List Out :=
  match n.log.entryTerm (p.nextIdx - 1) with
  | none => if p.nextIdx - 1 ≠ 0 then []
      else [.send (.appendEntries p.id true (n.createAppendentries p.nextIdx))]
  | some _ => [.send (.appendEntries p.id true (n.createAppendentries p.nextIdx))]

/-- mirrors pg_group.cc:166-239 for one raft group -/
def dispatchHeartbeats (n : Node) (env : Env) : Node :=
  if !n.isLeader then n
  else
    let due := n.allNodes.filter (n.heartbeatDue env)
    let msgs := due.flatMap n.heartbeatOut
    let n' := n.mapNodes fun p => if n.heartbeatDue env p then { p with appendTime := env.now } else p
    { n' with electionTimer := if due.isEmpty then n.electionTimer else env.now }.emit msgs

/-! ## Applying -/

/-- mirrors state_machine.cc:58-68 -/
def saveLastApply (n : Node) (env : Env) : Node :=
  if (2000 ≤ env.now - n.lastSaveTime ∨ 100 ≤ n.lastApplied - n.lastSaveIndex) ∧
      n.lastSaveIndex ≠ n.lastApplied then
    { n with lastSaveIndex := n.lastApplied, lastSaveTime := env.now }.emit [.put (.lapplyIdx n.lastApplied)]
  else n

/-- The continuation of `raft_get_entry_by_idx`, state_machine.cc:82-94 -/
def applyEntry (n : Node) (idx : Nat) : Option Entry → Node
  | none => { n with applyInProgress := false }
  | some e => ({ n with pending := n.pending ++ [.applying idx] } : Node).emit [.apply idx e]

/-- mirrors state_machine.cc:53-96 and raft.h:382-402 -/
def raftApplyEntry (n : Node) (env : Env) : Node :=
  if n.snapshotInProgress then n
  else
    let n := n.saveLastApply env
    if n.lastApplied = n.commitIdx then n
    else if n.applyInProgress then n
    else
      let n := { n with applyInProgress := true }
      let idx := n.lastApplied + 1
      match n.log.cache.get idx with
      | some e => n.applyEntry idx (some e)
      | none =>
        match n.log.disk.read idx idx with
        | none => n.applyEntry idx none
        | some es => { n with pending := n.pending ++ [.applyRead idx es.head?] }

/-- mirrors state_machine.cc:33-51 -/
def applyDone (n : Node) (idx : Nat) (res : Int) : Node :=
  let n :=
    if res = 0 then
      let last := n.lastApplied
      let n := { n with lastApplied := idx }.writeEntryFinish idx idx 0
      { n with log := n.log.setAppliedIndex last idx }
    else n
  { n with applyInProgress := false }

end Node
end Fastblock.L3.Raft
