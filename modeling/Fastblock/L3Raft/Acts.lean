import Fastblock.L3Raft.Step
import Mathlib.Logic.Relation

/-!
# What a server can do

Every handler is a sequence of a few kinds of elementary acts. `Act` lists
them once, each with what is known when it happens, and `handle_acts`
shows that one event of a server is a sequence of acts. An invariant of a
server, or of a cluster, is then proved by one short case per act.

`inp` is what may come in: messages delivered to the server and client
requests. `Risks` names the places where a safety property depends on more
than the code checks; a development that needs such a condition
instantiates the field, another one leaves it `True`.
-/
namespace Fastblock.L3.Raft

/-- What a peer record carries into elections and commits. -/
def RaftNode.key (p : RaftNode) : Nat × Nat × Bool := (p.id, p.matchIdx, p.voteForMe)

/-- The same with the next index. -/
def RaftNode.mark (p : RaftNode) : (Nat × Nat × Bool) × Nat := (p.key, p.nextIdx)

/-- The members with their next indices. -/
def Node.nexts (n : Node) : List (Nat × Nat) := n.allNodes.map fun p => (p.id, p.nextIdx)

/-- The two states differ in timers and bookkeeping only. -/
structure Same (n n' : Node) : Prop where
  nodeId : n'.nodeId = n.nodeId
  currentTerm : n'.currentTerm = n.currentTerm
  votedFor : n'.votedFor = n.votedFor
  identity : n'.identity = n.identity
  prevote : n'.prevote = n.prevote
  commitIdx : n'.commitIdx = n.commitIdx
  firstIdx : n'.firstIdx = n.firstIdx
  currentIdx : n'.currentIdx = n.currentIdx
  lastApplied : n'.lastApplied = n.lastApplied
  applyInProgress : n'.applyInProgress = n.applyInProgress
  snapshotIndex : n'.snapshotIndex = n.snapshotIndex
  log : n'.log = n.log
  opState : n'.opState = n.opState
  aeCall : n'.aeCall = n.aeCall
  pending : n'.pending = n.pending
  out : n'.out = n.out
  nodes : n'.nodes.map RaftNode.key = n.nodes.map RaftNode.key
  newNodes : n'.newNodes.map RaftNode.key = n.newNodes.map RaftNode.key
  nexts : n'.nexts = n.nexts

/-- Outputs that tell nothing about votes, replicated entries or applied
entries, and answer no request of a leader. -/
def Out.Plain : Out → Prop
  | .send (.requestVoteReply _ r) => r.voteGranted = .granted → r.prevote = true
  | .send (.snapshotCheck _ _) => True
  | .complete _ res => res ≠ 0
  | _ => False

/-- What comes in is, or continues, an installsnapshot with the index
`i`. -/
def EndsInstall (inp : Event → Prop) (i : Nat) : Prop :=
  (∃ dst m, inp (.recv (.installSnapshot dst m)) ∧ m.lastIdx = i) ∨
  (∃ src done r res io, inp (.finish (.snapWrite src done i r) res io)) ∨
  (∃ src r res io, inp (.finish (.snapSetIndex src i r) res io))

/-- The answer to a request that just came in, or whose objects were just
read or written. An append_entries request is answered so only if nothing
of it was accepted. -/
def Out.Answers (inp : Event → Prop) : Out → Prop
  | .send (.appendEntriesReply _ _ r) => r.success ≠ 1 ∧ ∃ dst hb ae, inp (.recv (.appendEntries dst hb ae))
  | .send (.snapshotCheckReply _ _) =>
    (∃ dst m, inp (.recv (.snapshotCheck dst m))) ∨ ∃ src r res io, inp (.finish (.checkRead src r) res io)
  | .send (.installSnapshotReply _ _) => ∃ i, EndsInstall inp i
  | _ => False

/-- Pending work of snapshot recovery at the leader. -/
def Pending.Plain : Pending → Prop
  | .snapCreate _ => True
  | .snapRead _ _ => True
  | .snapDelete _ _ => True
  | _ => False

/-- An entry being read for the state machine, or handed to it. -/
def Pending.isApply : Pending → Bool
  | .applyRead _ _ => true
  | .applying _ => true
  | _ => false

def Pending.isDiskWrite : Pending → Bool
  | .diskAppend _ _ _ => true
  | .followAppend _ _ _ _ => true
  | _ => false

/-- An installsnapshot message brought the index `i`. -/
def InstallIdx (inp : Event → Prop) (n : Node) (i : Nat) : Prop :=
  (∃ dst m, inp (.recv (.installSnapshot dst m)) ∧ m.done = true ∧ m.lastIdx = i ∧ m.term ≤ n.currentTerm) ∨
  (∃ src r, .snapWrite src true i r ∈ n.pending) ∨ (∃ src r, .snapSetIndex src i r ∈ n.pending)

/-- The pollers of the server no longer take entries. -/
def Node.Stopped (n : Node) : Prop := n.opState = .down ∨ n.opState = .delete

/-- The cached entries after the current index become the batch being
written. -/
def Node.batched (n : Node) : Node :=
  let last := n.log.cache.getLastCacheEntry
  { n with
    firstIdx := n.currentIdx + 1
    currentIdx := last
    pending := n.pending ++ [.diskAppend (n.currentIdx + 1) last (n.diskEntries (n.currentIdx + 1) last)] }

structure Risks where
  lead : Node → Prop
  truncate : Node → Nat → Prop
  errVote : Node → Int → Nat → Nat → Prop
  flush : Node → Prop
  install : Node → Nat → Prop
  lateRead : Node → Nat → Nat → List Entry → Prop
  evict : Node → Nat → Prop
  next : Node → Nat → Prop

def Risks.none : Risks :=
  ⟨fun _ => True, fun _ _ => True, fun _ _ _ _ => True, fun _ => True, fun _ _ => True,
    fun _ _ _ _ => True, fun _ _ => True, fun _ _ => True⟩

/-- The risk of a next index that a reply sets is met. -/
def Node.NextOk (n : Node) (R : Risks) (hb : Bool) (r : AppendEntriesReply) : Prop :=
  ∀ p ∈ n.allNodes, p.id = r.nodeId → (replyDecide n.isLeader n.currentTerm p r hb).1.nextIdx ≠ p.nextIdx →
    R.next n r.currentIdx

/-- What elections leave alone: the log, the work in progress and the marks
other than the commit index. -/
structure Kept (n n' : Node) : Prop where
  log : n'.log = n.log
  firstIdx : n'.firstIdx = n.firstIdx
  currentIdx : n'.currentIdx = n.currentIdx
  lastApplied : n'.lastApplied = n.lastApplied
  applyInProgress : n'.applyInProgress = n.applyInProgress
  snapshotIndex : n'.snapshotIndex = n.snapshotIndex
  opState : n'.opState = n.opState
  aeCall : n'.aeCall = n.aeCall
  pending : n'.pending = n.pending

/-- The acts of an election. -/
inductive ElectAct (inp : Event → Prop) (R : Risks) : Node → Node → Prop where
  /-- a higher term is taken over by a follower, or at the start of a
  prevote round -/
  | setTerm {n : Node} {t} (h : n.currentTerm < t)
      (hi : n.identity = .follower ∨ n.identity = .candidate ∧ n.prevote = true) :
      ElectAct inp R n (n.setCurrentTerm t)
  | follower {n : Node} : ElectAct inp R n { n with identity := .follower }
  | candidate {n : Node} : ElectAct inp R n ({ n with identity := .candidate, prevote := true } : Node).resetVotes
  | prevoted {n : Node} (hc : n.identity = .candidate) (hp : n.prevote = true)
      (hm : n.hasMajorityVotes = true) :
      ElectAct inp R n { ((n.setCurrentTerm (n.currentTerm + 1)).resetVotes).voteForNodeid n.nodeId with
        prevote := false }
  | sendVotes {n : Node} (hc : n.identity = .candidate) : ElectAct inp R n n.sendRequestVotes
  | lead {n : Node} {env} (hc : n.identity = .candidate) (hp : n.prevote = false)
      (hm : n.hasMajorityVotes = true) (hR : R.lead n) : ElectAct inp R n (n.becomeLeader env)
  | grant {n : Node} {dst vr} (hi : inp (.recv (.requestVote dst vr))) (hl : n.identity ≠ .leader)
      (ht : vr.term = n.currentTerm) (hp : vr.prevote = false) (hg : n.shouldGrantVote vr = true) :
      ElectAct inp R n ((n.voteForNodeid vr.candidateId).voteReply vr .granted)
  | voteFlag {n : Node} {dst r} (hi : inp (.recv (.requestVoteReply dst r))) (hc : n.identity = .candidate)
      (hp : n.prevote = r.prevote) (ht : n.currentTerm = r.term) (hg : r.voteGranted = .granted) :
      ElectAct inp R n (n.updNode r.nodeId fun p => { p with voteForMe := true })

inductive Act (inp : Event → Prop) (R : Risks) : Node → Node → Prop where
  | misc {n n'} (h : Same n n') : Act inp R n n'
  | elect {n n'} (h : ElectAct inp R n n') : Act inp R n n'
  -- messages
  | emit {n : Node} {o : Out} (h : o.Plain) : Act inp R n (n.emit [o])
  | answer {n : Node} {o : Out} (h : o.Answers inp) : Act inp R n (n.emit [o])
  | saveApplied {n : Node} : Act inp R n (n.emit [.put (.lapplyIdx n.lastApplied)])
  | sendInstall {n : Node} {dst m} (hl : n.identity = .leader) (ht : m.term = n.currentTerm)
      (hi : m.lastIdx = n.snapshotIndex) : Act inp R n (n.emit [.send (.installSnapshot dst m)])
  | sendAe {n : Node} {dst hb next k} (hl : n.identity = .leader) (hk : k ≤ 1 ∨ ¬n.Stopped) :
      Act inp R n (n.emit [.send (.appendEntries dst hb
        { n.createAppendentries next with entries := n.log.cache.getNum next k })])
  | sendRead {n : Node} {env node next es es'} (h : .recoveryRead node next es ∈ n.pending)
      (he : es' = es ∨ es' = []) (hR : es' ≠ [] → R.lateRead n node next es) :
      Act inp R n (({ n with pending := n.pending.erase (.recoveryRead node next es) } : Node).sendRecoveryEntries
        env node es')
  -- appendentries; `r` is the response as far as it is filled in
  | append {n : Node} {dst hb ae i r} (hi : inp (.recv (.appendEntries dst hb ae))) (ho : n.opState = .active)
      (hn : n.aeCall = none) (ht : ae.term = n.currentTerm) (hp : n.prevCheck ae = .ok)
      (hs : Node.scanEntries n.log n.currentIdx ae.prevLogIdx 0 ae.entries = (i, false))
      (hr : r.success = 1 ∧ r.nodeId = n.nodeId) :
      Act inp R n (({ n with aeCall := some ⟨ae.nodeId, hb, ae, r⟩ } : Node).appendEntryFunc ae i)
  | conflictPrev {n : Node} {dst hb ae r} (hi : inp (.recv (.appendEntries dst hb ae)))
      (ho : n.opState = .active) (hn : n.aeCall = none) (hp : n.prevCheck ae = .conflict)
      (hc : n.commitIdx < ae.prevLogIdx) (hR : R.truncate n ae.prevLogIdx) :
      Act inp R n (({ n with aeCall := some ⟨ae.nodeId, hb, ae, r⟩ } : Node).conflictPrev ae)
  | conflictEntry {n : Node} {dst hb ae i r} (hi : inp (.recv (.appendEntries dst hb ae)))
      (ho : n.opState = .active) (hn : n.aeCall = none)
      (hs : Node.scanEntries n.log n.currentIdx ae.prevLogIdx 0 ae.entries = (i, true))
      (hc : n.commitIdx < ae.prevLogIdx + 1 + i) (hR : R.truncate n (ae.prevLogIdx + 1 + i)) :
      Act inp R n (({ n with aeCall := some ⟨ae.nodeId, hb, ae, r⟩ } : Node).conflictEntry ae i)
  | truncatePrevDone {n : Node} {c res} (h : .truncatePrev ∈ n.pending) (hc : n.aeCall = some c) (hr : res ≠ 1) :
      Act inp R n (({ n with pending := n.pending.erase .truncatePrev } : Node).truncatePrevDone c.req res)
  | truncateEntryDone {n : Node} {c i} (h : .truncateEntry i ∈ n.pending) (hc : n.aeCall = some c) :
      Act inp R n (({ n with pending := n.pending.erase (.truncateEntry i) } : Node).truncateEntryDone c.req i)
  | followDone {n : Node} {first last commit es res}
      (hi : ∃ io, inp (.finish (.followAppend first last commit es) res io))
      (h : .followAppend first last commit es ∈ n.pending) :
      Act inp R n (({ n with pending := n.pending.erase (.followAppend first last commit es) } :
        Node).followAppendDone first last commit es res)
  -- the leader's log
  | enqueue {n : Node} {e : Entry} {client} (hi : inp (.write e client)) (hl : n.identity = .leader)
      (hc : e.isCfgChange = false) :
      Act inp R n { n with log := n.log.enqueue { e with term := n.currentTerm } (some (.client client)) }
  | flushQueue {n : Node} (hl : n.identity = .leader) (ho : ¬n.Stopped)
      (hk : n.log.cache.getLastCacheEntry = n.currentIdx ∨ n.log.cache.getLastCacheEntry = 0)
      (hc : n.currentIdx ≤ n.commitIdx) (hR : R.flush n)
      (hb : n.log.entryQueueFlush.2.cache.getLastCacheEntry = n.currentIdx ∨
        n.log.entryQueueFlush.2.cache.getLastCacheEntry = 0 ∨
        n.log.entryQueueFlush.2.cache.get (n.currentIdx + 1) = none) :
      Act inp R n { n with log := n.log.entryQueueFlush.2 }
  | flush {n : Node} (hl : n.identity = .leader) (ho : ¬n.Stopped)
      (hk : n.log.cache.getLastCacheEntry = n.currentIdx ∨ n.log.cache.getLastCacheEntry = 0)
      (hc : n.currentIdx ≤ n.commitIdx) (hR : R.flush n)
      (hg : (n.log.entryQueueFlush.2.cache.get (n.currentIdx + 1)).isSome = true) :
      Act inp R n ({ n with log := n.log.entryQueueFlush.2 } : Node).batched
  | batch {n : Node} (hl : n.identity = .leader) (ho : ¬n.Stopped)
      (hg : (n.log.cache.get (n.currentIdx + 1)).isSome = true) : Act inp R n n.batched
  | diskDone {n : Node} {first last es res} (hi : ∃ io, inp (.finish (.diskAppend first last es) res io))
      (h : .diskAppend first last es ∈ n.pending)
      (hR : res ≠ 0 → R.errVote n res last n.nodeId) :
      Act inp R n (({ n with pending := n.pending.erase (.diskAppend first last es) } :
        Node).diskAppendDone last es res)
  | commit {n : Node} {result index node}
      (hi : ∃ dst hb r, inp (.recv (.appendEntriesReply dst hb r)) ∧ r.nodeId = node)
      (hl : result = 0 → n.identity = .leader)
      (he : n.log.entryTerm index = some n.currentTerm)
      (hR : result ≠ 0 → R.errVote n result index node) :
      Act inp R n (n.nodeProcessCommit result index node)
  | replyPeer {n : Node} {dst hb r} (hi : inp (.recv (.appendEntriesReply dst hb r)))
      (hR : n.NextOk R hb r) :
      Act inp R n (n.updNode r.nodeId fun p => (replyDecide n.isLeader n.currentTerm p r hb).1)
  | snapMatch {n : Node} {dst r f} (hi : inp (.recv (.installSnapshotReply dst r))) (hl : n.identity = .leader)
      (ht : r.term = n.currentTerm) (hs : r.success = 1)
      (hf : ∀ p : RaftNode, (f p).mark = ((p.id, n.snapshotIndex, p.voteForMe), n.snapshotIndex + 1))
      (hR : R.next n n.snapshotIndex) :
      Act inp R n (n.updNode r.nodeId f)
  | addRead {n : Node} {node next last es} (h : n.log.disk.read next last = some es) (hl : n.identity = .leader) :
      Act inp R n { n with pending := n.pending ++ [.recoveryRead node next es] }
  -- applying
  | applyStart {n : Node} {e} (hc : n.lastApplied ≠ n.commitIdx) (ha : n.applyInProgress = false)
      (he : n.log.cache.get (n.lastApplied + 1) = some e) :
      Act inp R n (({ n with
        applyInProgress := true
        pending := n.pending ++ [.applying (n.lastApplied + 1)] } : Node).emit [.apply (n.lastApplied + 1) e])
  | applyRead {n : Node} {es} (hc : n.lastApplied ≠ n.commitIdx) (ha : n.applyInProgress = false)
      (he : n.log.cache.get (n.lastApplied + 1) = none)
      (hd : n.log.disk.read (n.lastApplied + 1) (n.lastApplied + 1) = some es) :
      Act inp R n { n with
        applyInProgress := true
        pending := n.pending ++ [.applyRead (n.lastApplied + 1) es.head?] }
  | applyReadDone {n : Node} {idx e} (h : .applyRead idx (some e) ∈ n.pending) :
      Act inp R n (({ n with
        pending := n.pending.erase (.applyRead idx (some e)) ++ [.applying idx] } : Node).emit [.apply idx e])
  | applyReadFailed {n : Node} {idx e} (h : .applyRead idx e ∈ n.pending) :
      Act inp R n { n with pending := n.pending.erase (.applyRead idx e), applyInProgress := false }
  | applyDone {n : Node} {idx res} (hi : ∃ io, inp (.finish (.applying idx) res io)) (h : .applying idx ∈ n.pending)
      (hR : R.evict n idx) :
      Act inp R n (({ n with pending := n.pending.erase (.applying idx) } : Node).applyDone idx res)
  | trim {n : Node} {nearUp} (hi : inp (.trim nearUp)) : Act inp R n (n.maybeTrim nearUp)
  -- snapshots
  | addWork {n : Node} {p : Pending} (h : p.Plain) : Act inp R n { n with pending := n.pending ++ [p] }
  | dropWork {n : Node} {p : Pending} (hi : ∃ res io, inp (.finish p res io)) (h : p.isApply = false)
      (hw : p.isDiskWrite = false) :
      Act inp R n { n with pending := n.pending.erase p }
  | snapIdx {n : Node} : Act inp R n { n with snapshotIndex := n.lastApplied }
  | addCheck {n : Node} {src r} (hi : ∃ dst m, inp (.recv (.snapshotCheck dst m))) :
      Act inp R n { n with pending := n.pending ++ [.checkRead src r] }
  | addInstall {n : Node} {src done i r} (hi : ∃ dst m, inp (.recv (.installSnapshot dst m)))
      (h : done = true → InstallIdx inp n i) :
      Act inp R n { n with pending := n.pending ++ [.snapWrite src done i r] }
  | dropDisk {n : Node} {d src i r} (hi : EndsInstall inp i) (h : InstallIdx inp n i)
      (hd : n.log.disk.trimBack n.log.disk.lowestIndex n.log.disk.highestIndex = some d) :
      Act inp R n { n with
        log := { n.log with disk := d }
        pending := n.pending ++ [.snapSetIndex src i r] }
  | install {n : Node} {src i r} (hi : EndsInstall inp i) (h : InstallIdx inp n i) (hR : R.install n i) :
      Act inp R n (n.snapSetIndexDone src i r)
  -- stopping
  | stopState {n : Node} (hi : inp .stop) : Act inp R n { n with opState := .down }
  | finishErr {n : Node} {first last res} (ho : n.Stopped) (h : res ≠ 0) :
      Act inp R n (n.writeEntryFinish first last res)
  | removeCache {n : Node} {first last} (ho : n.Stopped)
      (hf : (inp .stop ∧ first = n.firstIdx ∧ last = n.currentIdx) ∨ n.currentIdx < first)
      (hc : first ≤ last → ∀ it ∈ EntryCache.takeThrough last (n.log.cache.fromIdx first), it.complete = none) :
      Act inp R n { n with log := { n.log with cache := n.log.cache.removeEntryBetween first last } }
  | clearQueue {n : Node} {res} (h : res ≠ 0) : Act inp R n (n.clearEntryQueue res)

abbrev Acts (inp : Event → Prop) (R : Risks) : Node → Node → Prop := Relation.ReflTransGen (Act inp R)

namespace Node

variable {inp : Event → Prop} {R : Risks} {n : Node} {env : Env}

/-! ## Small steps -/

theorem mapNodes_same (f : RaftNode → RaftNode) (hf : ∀ p, (f p).mark = p.mark) :
    Same n (n.mapNodes f) := by
  have hk : RaftNode.key ∘ f = RaftNode.key := funext fun p => congrArg Prod.fst (hf p)
  have hn : (fun p : RaftNode => (p.id, p.nextIdx)) ∘ f = fun p => (p.id, p.nextIdx) :=
    funext fun p => congrArg (fun m => (m.1.1, m.2)) (hf p)
  constructor <;> simp [mapNodes, hk, nexts, allNodes, hn]

theorem updNode_same {i : Nat} {f : RaftNode → RaftNode} (hf : ∀ p, (f p).mark = p.mark) :
    Same n (n.updNode i f) := by
  refine mapNodes_same _ fun p => ?_
  split
  · exact hf p
  · rfl

theorem acts_misc {m : Node} (h : Same n m) : Acts inp R n m := .single (.misc h)

theorem acts_updNode {i : Nat} {f : RaftNode → RaftNode} (hf : ∀ p, (f p).mark = p.mark) :
    Acts inp R n (n.updNode i f) := acts_misc (updNode_same hf)

theorem acts_setLeader {l : Option Nat} : Acts inp R n (n.setLeader l) :=
  acts_misc (by constructor <;> rfl)

theorem acts_setElectionTimer {t : Int} : Acts inp R n (n.setElectionTimer t) :=
  acts_misc (by constructor <;> rfl)

theorem acts_setCurrentTerm {t : Nat}
    (hi : n.identity = .follower ∨ n.identity = .candidate ∧ n.prevote = true) :
    Acts inp R n (n.setCurrentTerm t) := by
  by_cases h : n.currentTerm < t
  · exact .single (.elect (.setTerm h hi))
  · rw [setCurrentTerm, if_neg h]

theorem acts_becomeFollower : Acts inp R n (n.becomeFollower env) :=
  (Relation.ReflTransGen.single (.elect .follower)).trans (acts_misc (by constructor <;> rfl))

/-- A higher term makes the server a follower. The role is left first
here, which commutes with the change of the term. -/
theorem acts_followTerm {t : Nat} : Acts inp R n ((n.setCurrentTerm t).becomeFollower env) := by
  have h1 : Acts inp R n { n with identity := .follower } := .single (.elect .follower)
  have he : ({ n with identity := .follower } : Node).setCurrentTerm t =
      { (n.setCurrentTerm t) with identity := .follower } := by
    unfold setCurrentTerm
    split <;> rfl
  have h2 := h1.trans (acts_setCurrentTerm (t := t) (.inl rfl))
  rw [he] at h2
  exact h2.trans (acts_misc (by constructor <;> rfl))

theorem acts_stepDownTo {t : Nat} : Acts inp R n (n.stepDownTo env t) := by
  unfold stepDownTo
  split
  · exact acts_followTerm.trans acts_setLeader
  · exact .refl

/-! ## Elections -/

/-- `raft_count_votes` ends in `raft_become_leader`: a majority, and in
the prevote round also a majority of the server alone. -/
def countWins (n : Node) : Bool :=
  n.hasMajorityVotes && (!n.prevote || n.resetVotes.hasMajorityVotes)

/-- The risk of becoming leader is met if counting the votes now makes a
leader. -/
def LeadOk (R : Risks) (n : Node) : Prop :=
  n.countWins = true → ∀ m : Node, Kept n m → m.commitIdx = n.commitIdx → R.lead m

theorem acts_becomePrevotedCandidate (hc : n.identity = .candidate) (hp : n.prevote = true)
    (hm : n.hasMajorityVotes = true) (hR : LeadOk R n) :
    Acts inp R n (n.becomePrevotedCandidate env) := by
  have h1 : Acts inp R n _ := .single (.elect (.prevoted hc hp hm))
  unfold becomePrevotedCandidate
  have hterm : n.setCurrentTerm (n.currentTerm + 1) =
      { n with currentTerm := n.currentTerm + 1, votedFor := none,
               out := n.out ++ [.put (.term (n.currentTerm + 1))] } := by
    simp [setCurrentTerm]
  have h2 := h1.trans (.single (.elect (.sendVotes (by simp [hterm, voteForNodeid, resetVotes, mapNodes, hc]))))
  dsimp only
  split
  · rename_i hmaj
    have hwin : n.countWins = true := by
      have : n.resetVotes.hasMajorityVotes = true := by
        simpa [hterm, sendRequestVotes, emit, voteForNodeid, resetVotes, mapNodes, hasMajorityVotes,
          isSelf] using hmaj
      simp [countWins, hm, this]
    refine h2.tail (.elect (.lead ?_ ?_ hmaj (hR hwin _ ⟨?_, ?_, ?_, ?_, ?_, ?_, ?_, ?_, ?_⟩ ?_))) <;>
      simp [hterm, sendRequestVotes, emit, voteForNodeid, resetVotes, mapNodes, hc]
  · exact h2

theorem acts_countVotes (hc : n.identity = .candidate) (hR : LeadOk R n) :
    Acts inp R n (n.countVotes env) := by
  unfold countVotes
  split
  · rename_i hm
    split
    · rename_i hp
      exact acts_becomePrevotedCandidate hc hp hm hR
    · rename_i hp
      have hp : n.prevote = false := by simpa using hp
      exact .single (.elect (.lead hc hp hm (hR (by simp [countWins, hm, hp]) n (by constructor <;> rfl) rfl)))
  · exact .refl

/-- The server as a candidate that has only its own vote. -/
def asCandidate (n : Node) : Node := ({ n with identity := .candidate, prevote := true } : Node).resetVotes

theorem acts_runCandidate (hR : LeadOk R n.asCandidate) : Acts inp R n.asCandidate (n.becomeCandidate env) := by
  have h1 : Acts inp R n.asCandidate (((n.asCandidate.setLeader none).randomizeElectionTimeout
    env).setElectionTimer env.now) := acts_misc (by constructor <;> rfl)
  refine (h1.tail (.elect (.sendVotes rfl))).trans (acts_countVotes rfl fun hw m hk hc => hR hw m ?_ hc)
  exact ⟨hk.log, hk.firstIdx, hk.currentIdx, hk.lastApplied, hk.applyInProgress, hk.snapshotIndex, hk.opState,
    hk.aeCall, hk.pending⟩

theorem acts_becomeCandidate (hR : LeadOk R n.asCandidate) : Acts inp R n (n.becomeCandidate env) :=
  (Relation.ReflTransGen.single (.elect .candidate)).trans (acts_runCandidate hR)

theorem acts_recvTimeoutNow
    (hR : n.opState = .active → LeadOk R (n.setCurrentTerm (n.currentTerm + 1)).asCandidate) :
    Acts inp R n (n.recvTimeoutNow env) := by
  unfold recvTimeoutNow
  split
  · exact .refl
  · rename_i ho
    have ho : n.opState = .active := by
      cases h : n.opState <;> simp_all [OpState.toErrno, errPgInitializing, errPgShutdown, errPgDeleted]
    have h1 : Acts inp R n n.asCandidate := .single (.elect .candidate)
    have h2 : Acts inp R n.asCandidate (n.asCandidate.setCurrentTerm (n.currentTerm + 1)) :=
      acts_setCurrentTerm (.inr ⟨rfl, rfl⟩)
    have he : n.asCandidate.setCurrentTerm (n.currentTerm + 1) =
        (n.setCurrentTerm (n.currentTerm + 1)).asCandidate := by
      simp [setCurrentTerm, asCandidate, resetVotes, mapNodes, isSelf]
    exact (h1.trans (he ▸ h2)).trans (acts_runCandidate (hR ho))

/-- `raft_periodic` starts an election. -/
def startsElection (n : Node) (env : Env) : Bool :=
  !n.isLeader && n.electionTimeoutRand ≤ env.now - n.electionTimer && !n.snapshotInProgress &&
    (n.getNode n.nodeId).isSome

theorem acts_periodicElection (hR : n.startsElection env = true → LeadOk R n.asCandidate) :
    Acts inp R n (n.periodicElection env) := by
  unfold periodicElection
  split
  · split
    · exact .refl
    · exact acts_becomeFollower.trans acts_setLeader
  · rename_i hl
    split
    · rename_i h
      have : n.startsElection env = true := by simp_all [startsElection]
      exact acts_becomeCandidate (hR this)
    · exact .refl

theorem acts_voteReply {vr : RequestVote} {g : VoteGranted} (h : g = .granted → vr.prevote = true) :
    Acts inp R n (n.voteReply vr g) :=
  .single (.emit (by simpa [Out.Plain] using h))

theorem acts_decideVote {dst : Nat} {vr : RequestVote} (hi : inp (.recv (.requestVote dst vr)))
    (ht : vr.term ≤ n.currentTerm) : Acts inp R n (n.decideVote env vr) := by
  unfold decideVote
  split
  · exact acts_voteReply (by simp)
  · rename_i hrej
    split
    · rename_i hg
      split
      · rename_i hp
        exact acts_voteReply (by simp [hp])
      · rename_i hp
        have hl : n.identity ≠ .leader := fun h => by simp [rejectsVotes, isLeader, h] at hrej
        have hteq : vr.term = n.currentTerm := by
          by_contra hne
          have hlt : vr.term < n.currentTerm := by omega
          simp [shouldGrantVote, hlt] at hg
        have h1 : Acts inp R n _ := .single (.elect (.grant hi hl hteq (by simpa using hp) hg))
        exact h1.trans (acts_misc (by constructor <;> rfl))
    · split
      · exact acts_voteReply (by simp)
      · exact acts_voteReply (by simp)

theorem stepDownTo_term_le {t : Nat} : t ≤ (n.stepDownTo env t).currentTerm := by
  unfold stepDownTo setCurrentTerm
  split
  · simp [becomeFollower, setLeader, setElectionTimer, randomizeElectionTimeout]
  · omega

theorem acts_recvRequestvote {dst : Nat} {vr : RequestVote} (hi : inp (.recv (.requestVote dst vr))) :
    Acts inp R n (n.recvRequestvote env vr) := by
  unfold recvRequestvote
  split
  · exact .single (.emit (by simp [Out.Plain]))
  · exact acts_stepDownTo.trans (acts_decideVote hi stepDownTo_term_le)

/-- The state in which a granted vote is counted. -/
def withVote (n : Node) (i : Nat) : Node := n.updNode i fun p => { p with voteForMe := true }

theorem acts_processRequestvoteReply {dst : Nat} {r : RequestVoteReply}
    (hi : inp (.recv (.requestVoteReply dst r)))
    (hR : n.isCandidate = true → n.prevote = r.prevote → n.currentTerm = r.term →
      r.voteGranted = .granted → LeadOk R (n.withVote r.nodeId)) :
    Acts inp R n (n.processRequestvoteReply env r) := by
  unfold processRequestvoteReply
  split
  · exact .refl
  · rename_i h
    obtain ⟨hc, hp⟩ : n.isCandidate = true ∧ n.prevote = r.prevote := by simpa using h
    have hid : n.identity = .candidate := by simpa [isCandidate] using hc
    split
    · exact acts_stepDownTo
    · split
      · exact .refl
      · rename_i ht
        have ht : n.currentTerm = r.term := by simpa using ht
        cases hg : r.voteGranted with
        | granted =>
          have h1 : Acts inp R n (n.withVote r.nodeId) := .single (.elect (.voteFlag hi hid hp ht hg))
          exact h1.trans (acts_countVotes hid (hR hc hp ht hg))
        | notGranted => exact .refl
        | unknownNode => exact .refl

/-! ## Appendentries -/

theorem toErrno_eq_zero : n.opState.toErrno = 0 ↔ n.opState = .active := by
  cases n.opState <;> simp [OpState.toErrno, errPgInitializing, errPgShutdown, errPgDeleted]

/-- The server with a call in progress whose response is `r`. -/
def withCall (n : Node) (hb : Bool) (ae : AppendEntries) (r : AppendEntriesReply) : Node :=
  { n with aeCall := some ⟨ae.nodeId, hb, ae, r⟩ }

theorem handError_withCall {hb : Bool} {ae : AppendEntries} {r : AppendEntriesReply} (hn : n.aeCall = none)
    (hr : r.success ≠ 1) : (n.withCall hb ae r).handError ae = n.emit [.send (.appendEntriesReply ae.nodeId hb
      { r with term := n.currentTerm, currentIdx := n.currentIdx, firstIdx := ae.prevLogIdx + 1 })] := by
  cases n
  simp_all [handError, setReply, finishAe, withCall, emit]

theorem acts_handError {dst : Nat} {hb : Bool} {ae : AppendEntries} {r : AppendEntriesReply}
    (hi : inp (.recv (.appendEntries dst hb ae))) (hn : n.aeCall = none) (hr : r.success ≠ 1) :
    Acts inp R n ((n.withCall hb ae r).handError ae) := by
  rw [handError_withCall hn hr]
  exact .single (.answer ⟨hr, dst, hb, ae, hi⟩)

/-- The index at which the request makes the server cut its log. -/
def truncIdx (n : Node) (ae : AppendEntries) : Option Nat :=
  match n.prevCheck ae with
  | .missing => none
  | .conflict => if ae.prevLogIdx ≤ n.commitIdx then none else some ae.prevLogIdx
  | .ok =>
    let s := scanEntries n.log n.currentIdx ae.prevLogIdx 0 ae.entries
    if s.2 && n.commitIdx < ae.prevLogIdx + 1 + s.1 then some (ae.prevLogIdx + 1 + s.1) else none

/-- The risk of truncation is met if the request makes the server cut its
log. -/
def TruncOk (R : Risks) (n : Node) (ae : AppendEntries) : Prop :=
  ∀ idx, n.truncIdx ae = some idx → ∀ m : Node, m.log = n.log → R.truncate m idx

theorem acts_acceptEntries {dst : Nat} {hb : Bool} {ae : AppendEntries} {r : AppendEntriesReply}
    (hi : inp (.recv (.appendEntries dst hb ae))) (ho : n.opState = .active) (hn : n.aeCall = none)
    (hr : r.nodeId = n.nodeId) (ht : ae.term = n.currentTerm) (hp : n.prevCheck ae = .ok)
    (hR : TruncOk R n ae) : Acts inp R n ((n.withCall hb ae r).acceptEntries ae) := by
  unfold acceptEntries
  generalize hs : scanEntries n.log n.currentIdx ae.prevLogIdx 0 ae.entries = s
  obtain ⟨i, conflict⟩ := s
  let r' : AppendEntriesReply := { r with success := 1, currentIdx := ae.prevLogIdx }
  have hcall : (n.withCall hb ae r).setReply (fun r => { r with success := 1, currentIdx := ae.prevLogIdx }) =
      n.withCall hb ae r' := rfl
  have hs' : scanEntries (n.withCall hb ae r').log (n.withCall hb ae r').currentIdx ae.prevLogIdx 0 ae.entries =
      (i, conflict) := hs
  simp only [hcall, hs']
  cases conflict with
  | false =>
    simp only [Bool.false_eq_true, if_false]
    exact .single (.append hi ho hn ht hp hs ⟨rfl, hr⟩)
  | true =>
    simp only [if_true]
    split
    · -- a conflict with a committed entry: the reply carries the error only
      exact acts_handError (r := { r' with success := errShutdown }) hi hn (by simp [errShutdown])
    · rename_i hcm
      have hcm : n.commitIdx < ae.prevLogIdx + 1 + i := Nat.lt_of_not_le hcm
      refine .single (.conflictEntry hi ho hn hs hcm (hR _ ?_ n rfl))
      simp only [truncIdx, hp, hs]
      simpa using hcm

theorem acts_followLeader {dst : Nat} {hb : Bool} {ae : AppendEntries} {r : AppendEntriesReply}
    (hi : inp (.recv (.appendEntries dst hb ae))) (ho : n.opState = .active) (hn : n.aeCall = none)
    (hr : r.success = 0 ∧ r.nodeId = n.nodeId) (ht : ae.term = n.currentTerm) (hR : TruncOk R n ae) :
    Acts inp R n ((n.withCall hb ae r).followLeader env ae) := by
  let r' : AppendEntriesReply := { r with lease := env.now + n.electionTimeout }
  set m := (n.setLeader (some ae.nodeId)).setElectionTimer env.now with hm
  have h1 : Acts inp R n m := acts_setLeader.trans acts_setElectionTimer
  have hRm : TruncOk R m ae := hR
  show Acts inp R n (match m.prevCheck ae with
    | .missing => (m.withCall hb ae r').handError ae
    | .conflict => if ae.prevLogIdx ≤ m.commitIdx then
        ((m.withCall hb ae r').setReply fun r => { r with success := errShutdown }).handError ae
      else (m.withCall hb ae r').conflictPrev ae
    | .ok => (m.withCall hb ae r').acceptEntries ae)
  cases hpm : m.prevCheck ae with
  | missing => exact h1.trans (acts_handError hi hn (by simp [r', hr.1]))
  | ok => exact h1.trans (acts_acceptEntries hi ho hn hr.2 ht hpm hRm)
  | conflict =>
    dsimp only
    split
    · exact h1.trans (acts_handError (r := { r' with success := errShutdown }) hi hn (by simp [errShutdown]))
    · rename_i hcm
      refine h1.tail (.conflictPrev hi ho hn hpm (Nat.lt_of_not_le hcm) (hRm _ ?_ m rfl))
      simp only [truncIdx, hpm]
      simp [hcm]

theorem acts_recvAppendentries {dst : Nat} {hb : Bool} {ae : AppendEntries}
    (hi : inp (.recv (.appendEntries dst hb ae)))
    (hR : n.opState = .active → n.aeCall = none → n.currentTerm ≤ ae.term → TruncOk R n ae) :
    Acts inp R n (n.recvAppendentries env hb ae) := by
  unfold recvAppendentries
  split
  · rename_i ho
    refine .single (.answer ⟨?_, dst, hb, ae, hi⟩)
    cases h : n.opState <;> simp_all [OpState.toErrno, errPgInitializing, errPgShutdown, errPgDeleted]
  · rename_i ho
    have ho : n.opState = .active := toErrno_eq_zero.mp (by simpa using ho)
    split
    · exact .refl
    · rename_i hn
      have hn : n.aeCall = none := by simpa using hn
      have hR := hR ho hn
      have hcall : ({ n with aeCall := some ⟨ae.nodeId, hb, ae, { nodeId := n.nodeId }⟩ } : Node) =
        n.withCall hb ae { nodeId := n.nodeId } := rfl
      simp only [hcall]
      split
      · rename_i hcand
        have ht : n.currentTerm = ae.term := by
          simp only [Bool.and_eq_true, decide_eq_true_eq] at hcand
          exact hcand.2
        have h1 : Acts inp R n (n.becomeFollower env) := acts_becomeFollower
        exact h1.trans (acts_followLeader hi ho hn ⟨rfl, rfl⟩ ht.symm (hR (Nat.le_of_eq ht)))
      · split
        · rename_i hlt
          have hset : (n.withCall hb ae { nodeId := n.nodeId }).setCurrentTerm ae.term =
              (n.setCurrentTerm ae.term).withCall hb ae { nodeId := n.nodeId } := by
            unfold setCurrentTerm
            rw [if_pos (show (n.withCall hb ae { nodeId := n.nodeId }).currentTerm < ae.term from hlt), if_pos hlt]
            rfl
          have hn' : n.setCurrentTerm ae.term = { n with
              currentTerm := ae.term, votedFor := none, out := n.out ++ [.put (.term ae.term)] } := by
            rw [setCurrentTerm, if_pos hlt]
          have h1 : Acts inp R n ((n.setCurrentTerm ae.term).becomeFollower env) := acts_followTerm
          refine h1.trans ?_
          rw [hset, hn']
          exact acts_followLeader hi ho hn ⟨rfl, rfl⟩ rfl (hR (Nat.le_of_lt hlt))
        · rename_i hle
          split
          · exact acts_handError hi hn (by simp)
          · rename_i hge
            have ht : ae.term = n.currentTerm := Nat.le_antisymm (Nat.le_of_not_lt hle) (Nat.le_of_not_lt hge)
            exact acts_followLeader hi ho hn ⟨rfl, rfl⟩ ht (hR (Nat.le_of_eq ht.symm))

end Node
end Fastblock.L3.Raft
