import Fastblock.L3Raft.Snapshot

/-!
# One event of a server

`Node.handle` is the entry point: a message, a poller, a client request or
the completion of pending work. Pollers run only while the server is not
stopped.
-/
namespace Fastblock.L3.Raft

/-- What the object store returned with a completion. -/
structure IoData where
  names : List String := []
  checks : List ObjectCheck := []
  datas : List Bytes := []
  deriving DecidableEq, Repr

inductive Event where
  | recv (m : Msg)
  | timeoutNow
  /-- `raft_periodic` -/
  | periodic
  /-- `raft_task_func` -/
  | task
  /-- `dispatch_heartbeats` -/
  | heartbeat
  /-- `apply_task` -/
  | applyTask
  /-- `maybe_trim`, with the index `get_near_up_index` finds (0: below the
  trigger) -/
  | trim (nearUp : Nat)
  /-- a client write or delete with its context -/
  | write (e : Entry) (client : Nat)
  /-- completion of pending work with a result -/
  | finish (p : Pending) (res : Int) (io : IoData)
  /-- an append_entries call failed in the network -/
  | rpcFailed (node : Nat)
  | stop
  deriving DecidableEq, Repr

namespace Node

variable (md5 : Bytes → Bytes)

/-- mirrors disk_log.h:261-285 -/
def maybeTrim (n : Node) (nearUp : Nat) : Node :=
  let d := n.log.disk
  let trim (last : Nat) : Node :=
    match d.trimBack d.lowestIndex last with
    | none => n
    | some d => { n with log := { n.log with disk := d } }
  if 1500 + d.lowestIndex < d.trimIndex then trim (d.trimIndex - 1000)
  else if min nearUp d.trimIndex ≠ 0 then trim (min nearUp d.trimIndex)
  else n

theorem maybeTrim_cases (n : Node) (nearUp : Nat) :
    n.maybeTrim nearUp = n ∨ ∃ last d, n.log.disk.trimBack n.log.disk.lowestIndex last = some d ∧
      (last = n.log.disk.trimIndex - 1000 ∧ 1500 < n.log.disk.trimIndex ∨ last = min nearUp n.log.disk.trimIndex) ∧
      n.maybeTrim nearUp = { n with log := { n.log with disk := d } } := by
  unfold maybeTrim
  dsimp only
  split
  · split
    · exact .inl rfl
    · next hd => exact .inr ⟨_, _, hd, .inl ⟨rfl, by omega⟩, rfl⟩
  split
  · split
    · exact .inl rfl
    · next hd => exact .inr ⟨_, _, hd, .inr rfl, rfl⟩
  · exact .inl rfl

def recvMsg (n : Node) (env : Env) : Msg → Node
  | .requestVote _ m => n.recvRequestvote env m
  | .requestVoteReply _ m => n.processRequestvoteReply env m
  | .appendEntries _ hb m => n.recvAppendentries env hb m
  | .appendEntriesReply _ hb m => n.processAppendentriesReply env hb m
  | .snapshotCheck _ m => n.recvSnapshotCheck env m
  | .snapshotCheckReply _ m => n.processSnapshotCheckReply env m
  | .installSnapshot _ m => n.recvInstallsnapshot env m
  | .installSnapshotReply _ m => n.processInstallsnapshotReply env m

/-- The continuation of a piece of pending work. The callbacks of the two
truncations belong to the append_entries call in progress. -/
def finishWork (n : Node) (env : Env) (res : Int) (io : IoData) : Pending → Node
  | .diskAppend _ last es => n.diskAppendDone last es res
  | .followAppend first last commit es => n.followAppendDone first last commit es res
  | .truncatePrev =>
    match n.aeCall with
    | none => n
    | some c => n.truncatePrevDone c.req res
  | .truncateEntry i =>
    match n.aeCall with
    | none => n
    | some c => n.truncateEntryDone c.req i
  | .recoveryRead node _ es => n.sendRecoveryEntries env node (if res = 0 then es else [])
  | .applyRead idx e => n.applyEntry idx (if res = 0 then e else none)
  | .applying idx => n.applyDone idx res
  | .snapCreate node => n.snapCreated env node io.names res
  | .checkRead src r => n.checkReadDone env src r io.checks res
  | .snapRead node checks => n.snapReadDone md5 env node (checks.zip io.datas) res
  | .snapWrite src done index r => n.snapWriteDone env src done index r res
  | .snapSetIndex src index r => n.snapSetIndexDone src index r
  | .snapDelete node recover => n.snapDeleted env node recover

def running (n : Node) (f : Node → Node) : Node := if n.opState = .down then n else f n

def handle (n : Node) (env : Env) : Event → Node
  | .recv m => n.recvMsg env m
  | .timeoutNow => n.recvTimeoutNow env
  | .periodic => n.running (·.raftPeriodic env)
  | .task => n.running (·.raftTask env)
  | .heartbeat => n.dispatchHeartbeats env
  | .applyTask => n.running fun n => if n.opState = .init then n else n.raftApplyEntry env
  | .trim nearUp => n.running (·.maybeTrim nearUp)
  | .write e client => n.writeEntry e client
  | .finish p res io =>
    if n.pending.contains p then
      ({ n with pending := n.pending.erase p } : Node).finishWork md5 env res io p
    else n
  | .rpcFailed node => n.updNode node fun p => { p with suppressHeartbeats := false }
  | .stop => n.stop

end Node
end Fastblock.L3.Raft
