import Fastblock.L3Raft.Server

/-!
# Receiving appendentries

`raft_recv_appendentries` (src/raft/raft_server.cc:594-804) with its
continuations: the follower's disk append and the two truncations. The
append buffer (src/raft/append_entry_buffer.cc) processes one request at a
time, so the request and the response being filled in are the node's
`aeCall`, which also stands for `_in_progress`. Requests still in the
buffer are requests still in flight.
-/
namespace Fastblock.L3.Raft
namespace Node

/-- `flush_complete::finish`, append_entry_buffer.cc:26-29: the call is
over and the response leaves as it stands -/
def finishAe (n : Node) : Node :=
  match n.aeCall with
  | none => n
  | some c => { n with aeCall := none }.emit [.send (.appendEntriesReply c.src c.hb c.r)]

def setReply (n : Node) (f : AppendEntriesReply → AppendEntriesReply) : Node :=
  { n with aeCall := n.aeCall.map fun c => { c with r := f c.r } }

def completeCtx (res : Int) (n : Node) : Ctx → Node
  | .client id => n.emit [.complete id res]
  | .rpc => n.finishAe

def completeCtxs (n : Node) (res : Int) (cs : List Ctx) : Node := cs.foldl (completeCtx res) n

/-- `raft_log::raft_write_entry_finish`, raft_log.h:183-185 -/
def writeEntryFinish (n : Node) (first last : Nat) (res : Int) : Node :=
  let r := n.log.cache.completeEntryBetween first last
  { n with log := { n.log with cache := r.2 } }.completeCtxs res r.1

/-- mirrors raft_server.cc:622-629 -/
def handError (n : Node) (ae : AppendEntries) : Node :=
  (n.setReply fun r =>
    { r with
      term := n.currentTerm
      currentIdx := if r.success ≠ 1 then n.currentIdx else r.currentIdx
      firstIdx := ae.prevLogIdx + 1 }).finishAe

/-- What `disk_append` takes from the cache for `[first, last]`,
raft_log.cc:102-112 -/
def diskEntries (n : Node) (first last : Nat) : List Entry :=
  (n.log.cache.getBetween first last).map Entry.onDisk

/-- The new entries of a request with their contexts: only the last one
answers the caller, raft_server.cc:703-717. -/
def withCtx : List Entry → List (Entry × Option Ctx)
  | [] => []
  | [e] => [(e, some .rpc)]
  | e :: es => (e, none) :: withCtx es

/-- mirrors raft_server.cc:698-757: append the entries from number `i` on.
`check_and_set_configuration` does nothing for write and delete entries. -/
def appendEntryFunc (n : Node) (ae : AppendEntries) (i : Nat) : Node :=
  let es := ae.entries.drop i
  let start := ae.prevLogIdx + 1 + i
  let last := start + es.length - 1
  let cur := ae.prevLogIdx + ae.entries.length
  let newCommit := if n.commitIdx < ae.leaderCommit then min ae.leaderCommit cur else 0
  let n := { n with log := n.log.logAppend (withCtx es) }
  let n := n.setReply fun r =>
    { r with currentIdx := cur, term := n.currentTerm, firstIdx := ae.prevLogIdx + 1 }
  if last < start then
    { n with commitIdx :=
        if n.commitIdx < ae.leaderCommit ∧ n.commitIdx < newCommit then newCommit else n.commitIdx }.finishAe
  else
    { n with
      currentIdx := last
      pending := n.pending ++ [.followAppend start last newCommit (n.diskEntries start last)] }

/-- `raft_log_truncate`, raft_server.cc:69-74 and raft_log.cc:130-140: the
cached tail is completed with 0 and removed, then the disk log is cut.
`found` says whether the disk log held the index: if not, the callback
runs at once. -/
def logTruncate (n : Node) (idx : Nat) : Bool × Node :=
  let r := n.log.truncateCache idx
  let n := { n with log := r.2 }.completeCtxs 0 r.1
  match n.log.disk.truncate idx with
  | none => (false, n)
  | some d => (true, { n with log := { n.log with disk := d } })

/-- The callback after a conflict at `prev_log_idx`,
raft_server.cc:683-690 -/
def truncatePrevDone (n : Node) (ae : AppendEntries) (res : Int) : Node :=
  ({ n with currentIdx := ae.prevLogIdx - 1 }.setReply fun r =>
    { r with success := if res ≠ 0 then res else errLogNotMatch }).handError ae

/-- The callback after a conflict at entry number `i`,
raft_server.cc:790-793 -/
def truncateEntryDone (n : Node) (ae : AppendEntries) (i : Nat) : Node :=
  { n with currentIdx := ae.prevLogIdx + i }.appendEntryFunc ae i

/-- A conflict at `prev_log_idx` that is not committed,
raft_server.cc:682-691. When the disk log does not hold the index, the
callback runs at once. -/
def conflictPrev (n : Node) (ae : AppendEntries) : Node :=
  let (found, n) := n.logTruncate ae.prevLogIdx
  if found then { n with pending := n.pending ++ [.truncatePrev] } else n.truncatePrevDone ae errInval

/-- A conflict at entry number `i` that is not committed,
raft_server.cc:786-797 -/
def conflictEntry (n : Node) (ae : AppendEntries) (i : Nat) : Node :=
  let (found, n) := n.logTruncate (ae.prevLogIdx + 1 + i)
  if found then { n with pending := n.pending ++ [.truncateEntry i] } else n.truncateEntryDone ae i

/-- The loop over the entries, raft_server.cc:763-800: the number of the
first entry that is new, or that conflicts (`true`). -/
def scanEntries (lg : RaftLog) (currentIdx prev : Nat) : Nat → List Entry → Nat × Bool
  | i, [] => (i, false)
  | i, e :: es =>
    match lg.entryTerm (prev + 1 + i) with
    | some t => if t ≠ e.term then (i, true) else scanEntries lg currentIdx prev (i + 1) es
    | none =>
      if currentIdx < prev + 1 + i then (i, false) else scanEntries lg currentIdx prev (i + 1) es

/-- mirrors raft_server.cc:695-803: the request passed the check at
`prev_log_idx` -/
def acceptEntries (n : Node) (ae : AppendEntries) : Node :=
  let n := n.setReply fun r => { r with success := 1, currentIdx := ae.prevLogIdx }
  let (i, conflict) := scanEntries n.log n.currentIdx ae.prevLogIdx 0 ae.entries
  if conflict then
    if ae.prevLogIdx + 1 + i ≤ n.commitIdx then
      (n.setReply fun r => { r with success := errShutdown }).handError ae
    else n.conflictEntry ae i
  else n.appendEntryFunc ae i

/-- The check at `prev_log_idx`, raft_server.cc:660-694 -/
inductive PrevCheck where
  | ok | missing | conflict
  deriving DecidableEq, Repr

def prevCheck (n : Node) (ae : AppendEntries) : PrevCheck :=
  if ae.prevLogIdx = 0 then .ok
  else
    match n.log.entryTerm ae.prevLogIdx with
    | none => if n.currentIdx < ae.prevLogIdx then .missing else .ok
    | some t => if t ≠ ae.prevLogTerm then .conflict else .ok

/-- mirrors raft_server.cc:652-804: the term is up to date -/
def followLeader (n : Node) (env : Env) (ae : AppendEntries) : Node :=
  let n := ((n.setLeader (some ae.nodeId)).setElectionTimer env.now).setReply fun r =>
    { r with lease := env.now + n.electionTimeout }
  match n.prevCheck ae with
  | .missing => n.handError ae
  | .conflict =>
    if ae.prevLogIdx ≤ n.commitIdx then
      (n.setReply fun r => { r with success := errShutdown }).handError ae
    else n.conflictPrev ae
  | .ok => n.acceptEntries ae

/-- mirrors raft_server.cc:594-804 and the service, raft_service.h:76-120.
A request waits in the buffer while another is in progress. -/
def recvAppendentries (n : Node) (env : Env) (hb : Bool) (ae : AppendEntries) : Node :=
  if n.opState.toErrno ≠ 0 then
    n.emit [.send (.appendEntriesReply ae.nodeId hb { nodeId := n.nodeId, success := n.opState.toErrno })]
  else if n.aeCall.isSome then n
  else
    let n := { n with aeCall := some ⟨ae.nodeId, hb, ae, { nodeId := n.nodeId }⟩ }
    if n.isCandidate && n.currentTerm = ae.term then (n.becomeFollower env).followLeader env ae
    else if n.currentTerm < ae.term then
      ((n.setCurrentTerm ae.term).becomeFollower env).followLeader env ae
    else if ae.term < n.currentTerm then n.handError ae
    else n.followLeader env ae

/-- mirrors raft_server.cc:559-585 after disk_log.h:189-216 -/
def followAppendDone (n : Node) (first last commit : Nat) (es : List Entry) (res : Int) : Node :=
  let n := if res = 0 then { n with log := { n.log with disk := n.log.disk.append es } }
    else n.setReply fun r => { r with success := res }
  let n := { n with commitIdx := if n.commitIdx < commit then commit else n.commitIdx }
  n.writeEntryFinish first last res

end Node
end Fastblock.L3.Raft
