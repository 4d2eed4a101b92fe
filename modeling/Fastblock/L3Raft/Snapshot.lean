import Fastblock.L3Raft.Leader

/-!
# Snapshot recovery messages

The raft half of recovery by snapshot (src/raft/raft_server.cc:1798-1930,
2059-2120, 2122-2464): a leader walks over the objects of its recovery
snapshot, asks the follower for the hash of each (`snapshot_check`) and
sends the objects that differ (`installsnapshot`); the last message
carries the index the snapshot stands for. What is read from and written
to the object store is an input of the completions here; the object tables
are the subject of `Fastblock.L2Store.Recovery`.
-/
namespace Fastblock.L3.Raft

/-- `SNAPSHOT_MAX_CHUNK` -/
def snapshotMaxChunk : Nat := 1

namespace Obr

/-- mirrors object_recovery.h:75-85 -/
def nextNames (o : Obr) : List String := (o.names.drop o.iter).take snapshotMaxChunk

def iterIsEnd (o : Obr) : Bool := o.iter = o.names.length

end Obr

/-- The objects `send_snapshot` puts in the message: those the follower
does not have, or whose hash differs (raft_server.cc:2180-2204). `checks`
pairs each answer of the follower with the recovery copy read for it. -/
def differing (md5 : Bytes → Bytes) (checks : List (ObjectCheck × Bytes)) : List ObjectData :=
  (checks.filter fun c => c.1.dataHash.isEmpty || md5 c.2 ≠ c.1.dataHash).map
    fun c => ⟨c.1.objName, c.2⟩

namespace Node

variable (md5 : Bytes → Bytes)

/-! ## Leader -/

/-- `delete _obr` with the flags of the node cleared (`handle_error`,
`handle_end`, `snap_end_err`) -/
def snapFailed (n : Node) (node : Nat) : Node :=
  { n with obr := none }.updNode node fun p =>
    { p with suppressHeartbeats := false, recovering := false }

/-- mirrors raft_server.cc:2370-2389; without a connection the caller
continues with `failed` -/
def sendSnapshotCheck (n : Node) (env : Env) (node : Nat) (failed : Node) : Node :=
  match n.obr with
  | none => n
  | some o =>
    if env.connected node then
      n.emit [.send (.snapshotCheck node ⟨n.nodeId, n.currentTerm, o.nextNames⟩)]
    else failed

/-- `snap_fn`, raft_server.cc:2438-2461, with the names captured by
`recovery_create` -/
def snapCreated (n : Node) (env : Env) (node : Nat) (names : List String) (res : Int) : Node :=
  let n := { n with snapshotInProgress := false }
  if res ≠ 0 then n.snapFailed node
  else
    let n := { n with snapshotIndex := n.lastApplied }
    match n.log.entryTerm n.lastApplied with
    | none => n.snapFailed node
    | some t =>
      let n := { n with snapshotTerm := t, obr := n.obr.map fun _ => ⟨names, 0⟩ }
      n.sendSnapshotCheck env node (n.snapFailed node)

/-- mirrors raft_server.cc:2311-2368. Each object read moves the
iterator. -/
def processSnapshotCheckReply (n : Node) (env : Env) (r : SnapshotCheckReply) : Node :=
  match n.getNode r.nodeId with
  | none => n
  | some p =>
    if !n.isLeader then n.snapFailed p.id
    else if n.currentTerm < r.term then (n.stepDownTo env r.term).snapFailed p.id
    else if n.currentTerm ≠ r.term then n.snapFailed p.id
    else if r.success = errSnapshotWaitApply then { n with tasks := n.tasks ++ [r.nodeId] }
    else if r.success ≠ 1 then n.snapFailed p.id
    else
      let n := n.updNode p.id fun p => p.setLease r.lease
      if r.objects.isEmpty then n
      else
        { n with
          obr := n.obr.map fun o => { o with iter := o.iter + r.objects.length }
          pending := n.pending ++ [.snapRead p.id r.objects] }

/-- `send_snapshot`, raft_server.cc:2169-2239 -/
def sendSnapshot (n : Node) (env : Env) (node : Nat) (checks : List (ObjectCheck × Bytes)) : Node :=
  match n.obr with
  | none => n
  | some o =>
    let objects := differing md5 checks
    if objects.isEmpty && !o.iterIsEnd then
      if (n.getNode node).isNone then n.snapFailed node
      else n.sendSnapshotCheck env node (n.snapFailed node)
    else if env.connected node then
      n.emit [.send (.installSnapshot node
        ⟨n.nodeId, n.currentTerm, n.snapshotIndex, n.snapshotTerm, o.iterIsEnd, objects⟩)]
    else n.snapFailed node

/-- `read_ctx::finish_del`, raft_server.cc:2241-2263 -/
def snapReadDone (n : Node) (env : Env) (node : Nat) (checks : List (ObjectCheck × Bytes))
    (res : Int) : Node :=
  if res ≠ 0 then n.snapFailed node
  else if !n.isLeader then n.snapFailed node
  else n.sendSnapshot md5 env node checks

/-- `_recovery_delete`, with what follows it -/
def recoveryDelete (n : Node) (node : Nat) (recover : Bool) : Node :=
  { n with pending := n.pending ++ [.snapDelete node recover] }

/-- `snap_end` and `snap_end_err`, raft_server.cc:1888-1900 -/
def snapDeleted (n : Node) (env : Env) (node : Nat) (recover : Bool) : Node :=
  if recover then
    (({ n with obr := none } : Node).updNode node fun p =>
      { p with suppressHeartbeats := false }).dispatchRecovery env node
  else n.snapFailed node

/-- mirrors raft_server.cc:1878-1945 -/
def processInstallsnapshotReply (n : Node) (env : Env) (r : InstallSnapshotReply) : Node :=
  match n.getNode r.nodeId, n.obr with
  | some p, some o =>
    if !n.isLeader then n.recoveryDelete p.id false
    else if n.currentTerm < r.term then (n.stepDownTo env r.term).recoveryDelete p.id false
    else if n.currentTerm ≠ r.term then n.recoveryDelete p.id false
    else if r.success ≠ 1 then n.recoveryDelete p.id false
    else
      let n := n.updNode p.id fun p => p.setLease r.lease
      if o.iterIsEnd then
        (n.updNode p.id fun p =>
          { p.setNextIdx (n.snapshotIndex + 1) with matchIdx := n.snapshotIndex }).recoveryDelete p.id true
      else n.sendSnapshotCheck env p.id (n.recoveryDelete p.id false)
  | _, _ => n

/-- mirrors raft_server.cc:2391-2411 -/
def handleSnapCheckTask (n : Node) (env : Env) (node : Nat) : Node :=
  match n.getNode node with
  | none => { n with obr := none }
  | some _ =>
    n.sendSnapshotCheck env node
      (({ n with obr := none } : Node).updNode node fun p => { p with recovering := false })

/-- mirrors raft_server.cc:310-322 -/
def taskLoop (n : Node) (env : Env) : Node :=
  n.tasks.foldl (fun n t => n.handleSnapCheckTask env t) { n with tasks := [] }

/-- mirrors raft_server.cc:316-350 -/
def raftPeriodic (n : Node) (env : Env) : Node :=
  if n.opState = .init then n else (n.periodicElection env).taskLoop env

/-! ## Follower -/

/-- The term and role changes both snapshot requests make,
raft_server.cc:1820-1833, 2073-2086 -/
def followSnapshot (n : Node) (env : Env) (src : Nat) (t : Nat) : Node :=
  let n := n.setCurrentTerm t
  let n := if n.isFollower then n else n.becomeFollower env
  n.setLeader (some src)

/-- mirrors raft_server.cc:2059-2120 and the service,
raft_service.h:172-208. A request of an older term is never answered. -/
def recvSnapshotCheck (n : Node) (env : Env) (m : SnapshotCheck) : Node :=
  if n.opState.toErrno ≠ 0 then n.emit [.send (.snapshotCheckReply m.nodeId { nodeId := 0 })]
  else if m.term < n.currentTerm then n.setElectionTimer env.now
  else
    let n := n.followSnapshot env m.nodeId m.term
    let r : SnapshotCheckReply := { nodeId := n.nodeId, term := n.currentTerm }
    if n.commitIdx = n.lastApplied then
      { n with pending := n.pending ++ [.checkRead m.nodeId { r with success := 1 }] }
    else n.emit [.send (.snapshotCheckReply m.nodeId { r with success := errSnapshotWaitApply })]

/-- mirrors raft_server.cc:2095-2106 -/
def checkReadDone (n : Node) (env : Env) (src : Nat) (r : SnapshotCheckReply)
    (objects : List ObjectCheck) (res : Int) : Node :=
  (n.setElectionTimer env.now).emit [.send (.snapshotCheckReply src
    { r with
      lease := env.now + n.electionTimeout
      success := if res ≠ 0 then res else r.success
      objects := objects })]

/-- mirrors raft.h:807-812. The cache is left as it is. -/
def setIndexAfterSnapshot (n : Node) (i : Nat) : Node :=
  { n with lastApplied := i, currentIdx := i, commitIdx := i, log := { n.log with nextIdx := i + 1 } }

/-- mirrors raft_server.cc:1843-1853 after disk_log.h:386-392 -/
def snapSetIndexDone (n : Node) (src : Nat) (index : Nat) (r : InstallSnapshotReply) : Node :=
  (({ n with log := { n.log with disk := n.log.disk.setMarks index } } : Node).setIndexAfterSnapshot
    index).emit [.send (.installSnapshotReply src r)]

/-- `write_fn`, raft_server.cc:1835-1860. The disk log is emptied before
the indices are set; when it is empty already, or cannot be trimmed, the
callback runs at once. -/
def snapWriteDone (n : Node) (env : Env) (src : Nat) (done : Bool) (index : Nat)
    (r : InstallSnapshotReply) (res : Int) : Node :=
  let r := { r with
    lease := env.now + n.electionTimeout
    success := if res ≠ 0 then res else 1 }
  let n := n.setElectionTimer env.now
  if done then
    let d := n.log.disk
    match d.trimBack d.lowestIndex d.highestIndex with
    | none => n.snapSetIndexDone src index r
    | some d =>
      { n with log := { n.log with disk := d }, pending := n.pending ++ [.snapSetIndex src index r] }
  else n.emit [.send (.installSnapshotReply src r)]

/-- mirrors raft_server.cc:1798-1872 and the service,
raft_service.h:210-247 -/
def recvInstallsnapshot (n : Node) (env : Env) (m : InstallSnapshot) : Node :=
  if n.opState.toErrno ≠ 0 then n.emit [.send (.installSnapshotReply m.nodeId { nodeId := 0 })]
  else if m.term < n.currentTerm then n.setElectionTimer env.now
  else
    let n := n.followSnapshot env m.nodeId m.term
    let r : InstallSnapshotReply := { nodeId := n.nodeId, term := n.currentTerm }
    if m.objects.isEmpty then n.snapWriteDone env m.nodeId m.done m.lastIdx r 0
    else { n with pending := n.pending ++ [.snapWrite m.nodeId m.done m.lastIdx r] }

end Node
end Fastblock.L3.Raft
