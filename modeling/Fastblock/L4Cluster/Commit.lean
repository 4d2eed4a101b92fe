import Fastblock.Core.Quorum
import Fastblock.L3Raft.Cache
import Fastblock.L3Raft.Frames
import Fastblock.L3Raft.Load
import Fastblock.L4Cluster.Cluster

/-!
# The commit rule

`raft_node_process_commit` (src/raft/raft_server.cc:1009-1062) should
raise the commit index of a leader to an index only when the leader and a
majority of the members, of both member lists while there are two, have
stored their logs up to that index. A `History` is a server with what its
members reported since it became the leader; the members may send
anything, and the member lists may change between two events.

The rule does not hold: the call that reports an error of a peer counts
the peer, and a failed disk append sets the leader's own match index
(`error_reply_commits`). `commit_rule` is the property for the histories
in which no error decides a commit.
-/
namespace Fastblock.L4

open Fastblock.Core Fastblock.L3.Raft

/-- A report `(node, index)`: the node has stored its log up to the
index. -/
abbrev Reports := List (Nat × Nat)

def Reports.tell (rs : Reports) (node index : Nat) : Bool := rs.any fun x => x.1 = node && index ≤ x.2

/-- What an event reports to a leader. -/
def reportsOf (n : Node) : Event → Reports
  | .recv (.appendEntriesReply _ _ r) =>
    if n.isLeader ∧ r.term = n.currentTerm ∧ r.success = 1 then [(r.nodeId, r.currentIdx)] else []
  | .recv (.installSnapshotReply _ r) =>
    if n.isLeader ∧ r.term = n.currentTerm ∧ r.success = 1 ∧ n.obr.any (·.iterIsEnd) then
      [(r.nodeId, n.snapshotIndex)]
    else []
  | .finish (.diskAppend first last es) res _ =>
    if n.pending.contains (.diskAppend first last es) ∧ res = 0 then [(n.nodeId, last)] else []
  | _ => []

/-- A server, and what was reported to it since it became the leader. -/
structure History where
  node : Node
  reports : Reports

inductive Turn where
  | event (env : Env) (ev : Event)
  /-- a step of the membership change: the replies it takes, and the server
  after it -/
  | members (told : Reports) (n : Node)

namespace History

/-- The server became the leader of a new term. -/
def elected (n n' : Node) : Bool := n'.isLeader && !(n.isLeader && n.currentTerm = n'.currentTerm)

def next (md5 : Bytes → Bytes) (s : History) (env : Env) (ev : Event) : History :=
  let n := s.node.handle md5 env ev
  ⟨n, if elected s.node n then [] else s.reports ++ reportsOf s.node ev⟩

/-- The match index of `p` was there before the step, or `told` reports
it. -/
def Keeps (s : History) (told : Reports) (p : RaftNode) : Prop :=
  p.matchIdx = 0 ∨ (∃ q ∈ s.node.allNodes, q.id = p.id ∧ p.matchIdx = q.matchIdx) ∨ (p.id, p.matchIdx) ∈ told

/-- What a membership change may do to a leader (raft_node.cc:24-63): a
member that stays keeps its record, one that joins brings the record kept
while it caught up, and the disk append of a configuration entry sets the
leader's own match index (raft_server.cc:1316-1334). The rest of the
server may be anything. -/
structure Reconfigured (s : History) (told : Reports) (n : Node) : Prop where
  nodeId : n.nodeId = s.node.nodeId
  leader : n.identity = .leader → s.node.identity = .leader ∧ n.currentTerm = s.node.currentTerm
  member : ∀ p ∈ n.allNodes, p.id = n.nodeId ∨ s.Keeps told p

inductive Step (md5 : Bytes → Bytes) : History → Turn → History → Prop where
  | event {s : History} {env : Env} {ev : Event} (h : AnyEvent ev) : Step md5 s (.event env ev) (s.next md5 env ev)
  | members {s : History} {told : Reports} {n : Node} (h : s.Reconfigured told n) :
      Step md5 s (.members told n) ⟨n, s.reports ++ told⟩

end History

/-- The histories of a server that is not a leader when they start. -/
def history (md5 : Bytes → Bytes) : Lts History Turn where
  init s := s.node.identity ≠ .leader
  step := History.Step md5

/-! ## The rule -/

/-- The server and a majority of its members have reported that they stored
the log up to `index`. -/
structure Stored (rs : Reports) (n : Node) (index : Nat) : Prop where
  leader : rs.tell n.nodeId index = true
  nodes : Majority n.nodes fun p => rs.tell p.id index
  newNodes : n.newNodes = [] ∨ Majority n.newNodes fun p => rs.tell p.id index

/-- The match indices say that a majority of the members, those of `counted`
taken as given, hold `index`. -/
def HoldMajority (n : Node) (index : Nat) (counted : Nat → Bool) : Prop :=
  Majority n.nodes (fun p => index ≤ p.matchIdx || counted p.id) ∧
    (n.newNodes = [] ∨ Majority n.newNodes fun p => index ≤ p.matchIdx || counted p.id)

/-- The leader's own record says that it holds `index`. -/
def OwnHolds (n : Node) (index : Nat) : Prop := ∃ p ∈ n.allNodes, p.id = n.nodeId ∧ index ≤ p.matchIdx

/-- An error of `node` for `index` decides nothing: it does not move the
leader's own match index, and if the majority is there with `node` it is
there without it. -/
structure ErrorIdle (n : Node) (index node : Nat) : Prop where
  own : node = n.nodeId → ∀ p ∈ n.allNodes, p.id = node → index ≤ p.matchIdx
  majority : OwnHolds n index → HoldMajority n index (· == node) → HoldMajority n index fun _ => false

/-- The error reply `r` of a peer is counted for the index `i`. -/
def CountsError (n : Node) (hb : Bool) (r : AppendEntriesReply) (i : Nat) : Prop :=
  n.errPoint hb r = some i ∧ (n.log.entryTerm i = some n.currentTerm ∨ n.log.entryTerm i = some r.term)

/-- No error decides a commit of the leader. -/
def CommitSafe (s : History) : Turn → Prop
  | .event _ (.recv (.appendEntriesReply _ hb r)) =>
    s.node.identity = .leader → ∀ i, CountsError s.node hb r i → ErrorIdle s.node i r.nodeId
  | .event _ (.finish (.diskAppend first last es) res _) =>
    s.node.identity = .leader → .diskAppend first last es ∈ s.node.pending → res ≠ 0 →
      ErrorIdle s.node last s.node.nodeId
  -- no configuration entry is counted for the leader that its disk did not take
  | .members told n => n.identity = .leader → ∀ p ∈ n.allNodes, p.id = n.nodeId → s.Keeps told p
  | _ => True

/-- The events in which `raft_node_process_commit` is called. -/
def callsCommit : Event → Bool
  | .recv (.appendEntriesReply _ _ _) => true
  | .finish (.diskAppend _ _ _) _ _ => true
  | _ => false

/-! ## Match indices are reported -/

namespace Reports

variable {rs rs' : Reports} {node index : Nat}

theorem tell_append : (rs ++ rs').tell node index = (rs.tell node index || rs'.tell node index) := List.any_append

theorem tell_of_mem {k : Nat} (h : (node, k) ∈ rs) (hk : index ≤ k) : rs.tell node index = true :=
  List.any_eq_true.mpr ⟨_, h, by simp [hk]⟩

theorem tell_mono {k : Nat} (h : rs.tell node k = true) (hk : index ≤ k) : rs.tell node index = true := by
  obtain ⟨x, hx, h⟩ := List.any_eq_true.mp h
  simp only [Bool.and_eq_true, decide_eq_true_eq] at h
  exact List.any_eq_true.mpr ⟨x, hx, by simp [h.1, Nat.le_trans hk h.2]⟩

end Reports

/-- Every match index is 0 or was reported. -/
def Backed (rs : Reports) (n : Node) : Prop := ∀ p ∈ n.allNodes, p.matchIdx = 0 ∨ rs.tell p.id p.matchIdx = true

/-- The match indices of `n'` are those of `n`, or lower, or reported by
`rs`. -/
def Tracks (rs : Reports) (n n' : Node) : Prop :=
  ∀ p' ∈ n'.allNodes, ∃ p ∈ n.allNodes, p.id = p'.id ∧ (p'.matchIdx ≤ p.matchIdx ∨ rs.tell p'.id p'.matchIdx = true)

theorem Backed.tracks {rs rs' : Reports} {n n' : Node} (h : Backed rs n) (ht : Tracks rs' n n') :
    Backed (rs ++ rs') n' := by
  intro p' hp'
  obtain ⟨p, hp, hid, hle | hm⟩ := ht p' hp'
  · rcases h p hp with h0 | h
    · exact .inl (by omega)
    · refine .inr ?_
      rw [Reports.tell_append, ← hid, Reports.tell_mono h hle, Bool.true_or]
  · exact .inr (by rw [Reports.tell_append, hm, Bool.or_true])

theorem Tracks.of_keys {rs : Reports} {n n' : Node} (hn : n'.nodes.map RaftNode.key = n.nodes.map RaftNode.key)
    (hnn : n'.newNodes.map RaftNode.key = n.newNodes.map RaftNode.key) : Tracks rs n n' := by
  have hall : n'.allNodes.map RaftNode.key = n.allNodes.map RaftNode.key := by
    simp only [Node.allNodes, List.map_append, hn, hnn]
  intro p' hp'
  obtain ⟨p, hp, hk⟩ := List.mem_map.mp (hall ▸ List.mem_map_of_mem hp' : p'.key ∈ n.allNodes.map RaftNode.key)
  simp only [RaftNode.key, Prod.mk.injEq] at hk
  exact ⟨p, hp, hk.1, .inl (Nat.le_of_eq hk.2.1.symm)⟩

theorem Tracks.of_quiet {rs : Reports} {n n' : Node} (h : Quiet n n') : Tracks rs n n' := by
  have h := h.peers
  simp only [Node.peers, Prod.mk.injEq] at h
  exact .of_keys h.2.2.2.2.2.1 h.2.2.2.2.2.2

theorem Tracks.trans {rs : Reports} {a b c : Node} (h : Tracks rs a b) (h' : Tracks rs b c) : Tracks rs a c := by
  intro p'' hp''
  obtain ⟨p', hp', hid', hm'⟩ := h' p'' hp''
  obtain ⟨p, hp, hid, hm⟩ := h p' hp'
  refine ⟨p, hp, hid.trans hid', ?_⟩
  rcases hm' with hle' | ht
  · rcases hm with hle | ht
    · exact .inl (Nat.le_trans hle' hle)
    · exact .inr (hid' ▸ Reports.tell_mono ht hle')
  · exact .inr ht

theorem tracks_updNode {rs : Reports} {n : Node} {i : Nat} {f : RaftNode → RaftNode} (hid : ∀ p, (f p).id = p.id)
    (hf : ∀ p ∈ n.allNodes, p.id = i → (f p).matchIdx ≤ p.matchIdx ∨ rs.tell i (f p).matchIdx = true) :
    Tracks rs n (n.updNode i f) := by
  intro p' hp'
  obtain ⟨p, hp, rfl⟩ : ∃ p ∈ n.allNodes, (if p.id = i then f p else p) = p' := by
    simpa [Node.allNodes, Node.updNode, Node.mapNodes, or_and_right, exists_or] using hp'
  refine ⟨p, hp, ?_⟩
  split
  · next h => exact ⟨(hid p).symm, by rw [hid, h]; exact hf p hp h⟩
  · exact ⟨rfl, .inl (Nat.le_refl _)⟩

/-! ## One call of `raft_node_process_commit` -/

theorem ownMatch_tracks {rs : Reports} {n : Node} {index node : Nat}
    (h : node = n.nodeId → (∀ p ∈ n.allNodes, p.id = node → index ≤ p.matchIdx) ∨ rs.tell node index = true) :
    Tracks rs n (n.ownMatch index node) := by
  unfold Node.ownMatch
  split
  · next hn =>
    refine tracks_updNode (fun _ => rfl) fun p hp hi => ?_
    exact (h hn).imp_left fun h => h p hp hi
  · exact .of_keys rfl rfl

theorem nodeProcessCommit_allNodes {n : Node} {result : Int} {index node : Nat} :
    (n.nodeProcessCommit result index node).allNodes = (n.ownMatch index node).allNodes := by
  unfold Node.nodeProcessCommit
  dsimp only
  split <;> rfl

theorem nodeProcessCommit_tracks {rs : Reports} {n : Node} {result : Int} {index node : Nat}
    (h : node = n.nodeId → (∀ p ∈ n.allNodes, p.id = node → index ≤ p.matchIdx) ∨ rs.tell node index = true) :
    Tracks rs n (n.nodeProcessCommit result index node) := by
  intro p' hp'
  rw [nodeProcessCommit_allNodes] at hp'
  exact ownMatch_tracks h p' hp'

/-- The commit index is raised: the leader's own record and a majority hold
the index, the node of an error counted. -/
theorem nodeProcessCommit_raised {n : Node} {result : Int} {index node : Nat}
    (h : n.commitIdx < (n.nodeProcessCommit result index node).commitIdx) :
    (n.nodeProcessCommit result index node).commitIdx = index ∧ n.commitIdx < index ∧
      OwnHolds (n.ownMatch index node) index ∧
      HoldMajority (n.ownMatch index node) index fun i => result ≠ 0 && i == node := by
  have hown : (n.ownMatch index node).commitIdx = n.commitIdx := by
    unfold Node.ownMatch
    split <;> rfl
  unfold Node.nodeProcessCommit at h ⊢
  dsimp only at h ⊢
  split at h
  · next hc =>
    rw [if_pos hc]
    simp only [Bool.and_eq_true, Bool.or_eq_true, decide_eq_true_eq, hown] at hc
    obtain ⟨⟨⟨hlt, hl⟩, hv⟩, hnv⟩ := hc
    refine ⟨rfl, hlt, ?_, hv, hnv.imp_left List.eq_nil_of_length_eq_zero⟩
    obtain ⟨p, hp, h⟩ := List.any_eq_true.mp hl
    simp only [Node.isSelf, Bool.and_eq_true, decide_eq_true_eq] at h
    exact ⟨p, hp, h⟩
  · omega

theorem Backed.stored {rs : Reports} {n : Node} {index : Nat} (h : Backed rs n) (h0 : 0 < index)
    (hown : OwnHolds n index) (hm : HoldMajority n index fun _ => false) : Stored rs n index := by
  have htell : ∀ p ∈ n.allNodes, index ≤ p.matchIdx → rs.tell p.id index = true := by
    intro p hp hle
    rcases h p hp with hz | ht
    · omega
    · exact Reports.tell_mono ht hle
  obtain ⟨p, hp, hid, hle⟩ := hown
  simp only [HoldMajority, Bool.or_false] at hm
  refine ⟨hid ▸ htell p hp hle, hm.1.mono fun q hq hle => ?_, hm.2.imp_right fun hm => hm.mono fun q hq hle => ?_⟩
  · exact htell q (List.mem_append_left _ hq) (of_decide_eq_true hle)
  · exact htell q (List.mem_append_right _ hq) (of_decide_eq_true hle)

/-! ## The events that move match indices -/

/-- A leader afterwards was one before, in the same term. -/
def Role (n m : Node) : Prop := m.identity = .leader → n.identity = .leader ∧ m.currentTerm = n.currentTerm

theorem Role.trans {a b c : Node} (h : Role a b) (h' : Role b c) : Role a c := fun hl =>
  ⟨(h (h' hl).1).1, (h' hl).2.trans (h (h' hl).1).2⟩

theorem Role.of_elect {n m : Node} (h : m.elect = n.elect) : Role n m := by
  simp only [Node.elect, Prod.mk.injEq] at h
  exact fun hl => ⟨h.2.2.2.1 ▸ hl, h.2.1⟩

theorem Role.of_quiet {n m : Node} (h : Quiet n m) : Role n m := .of_elect h.mild.elect

theorem role_stepDownTo {n : Node} {env : Env} {t : Nat} : Role n (n.stepDownTo env t) := by
  unfold Node.stepDownTo
  split
  · exact fun hl => by cases hl
  · exact fun hl => ⟨hl, rfl⟩

theorem role_processResponse {n : Node} {result : Int} {point : Nat} {p : RaftNode} :
    Role n (n.processResponse result point p) := by
  unfold Node.processResponse
  split
  · exact .of_quiet (Node.updNode_quiet (f := fun p => { p with recovering := false }) fun _ => rfl)
  · split
    · exact .of_elect Node.nodeProcessCommit_mild.elect
    · exact .of_elect rfl

theorem role_processAppendentriesReply {n : Node} {env : Env} {hb : Bool} {r : AppendEntriesReply} :
    Role n (n.processAppendentriesReply env hb r) := by
  unfold Node.processAppendentriesReply
  split
  · exact .of_elect rfl
  · have hupd : Role n (n.updNode r.nodeId fun p => (replyDecide n.isLeader n.currentTerm p r hb).1) :=
      .of_elect (Node.updNode_mild fun p => ⟨Node.replyDecide_spec.id, Node.replyDecide_spec.voteForMe⟩).elect
    dsimp only
    split
    · exact hupd
    · exact hupd
    · exact hupd.trans role_processResponse
    · exact (hupd.trans role_stepDownTo).trans role_processResponse
    · exact hupd.trans (.of_quiet Node.dispatchRecovery_quiet.1)
    · exact hupd.trans role_processResponse

theorem holdMajority_congr {n m : Node} {index : Nat} {counted : Nat → Bool}
    (hn : m.nodes.map RaftNode.key = n.nodes.map RaftNode.key)
    (hnn : m.newNodes.map RaftNode.key = n.newNodes.map RaftNode.key) :
    HoldMajority m index counted ↔ HoldMajority n index counted := by
  have hmaj : ∀ l l' : List RaftNode, l.map RaftNode.key = l'.map RaftNode.key →
      (Majority l (fun p => index ≤ p.matchIdx || counted p.id) ↔
        Majority l' fun p => index ≤ p.matchIdx || counted p.id) := by
    intro l l' h
    have hcount : ∀ l : List RaftNode, l.countP (fun p => index ≤ p.matchIdx || counted p.id) =
        (l.map RaftNode.key).countP fun k => index ≤ k.2.1 || counted k.1 := fun l => by
      rw [List.countP_map]
      rfl
    have hlen : l.length = l'.length := by simpa using congrArg List.length h
    rw [Majority, Majority, hcount, hcount, h, hlen]
  have hnil : m.newNodes = [] ↔ n.newNodes = [] := by
    rw [← List.map_eq_nil_iff (f := RaftNode.key), hnn, List.map_eq_nil_iff]
  rw [HoldMajority, HoldMajority, hmaj _ _ hn, hmaj _ _ hnn, hnil]

/-- What an event did to a leader whose members reported `rs` with it. -/
structure Advance (rs : Reports) (n m : Node) : Prop where
  tracks : Tracks rs n m
  raised : n.commitIdx < m.commitIdx → OwnHolds m m.commitIdx ∧ HoldMajority m m.commitIdx fun _ => false

/-- Before an event that moves no match index further, the leader is as
after the reply. -/
theorem Advance.after {rs : Reports} {n n₁ m : Node} (h : Advance rs n₁ m) (ht : Tracks rs n n₁)
    (hc : n₁.commitIdx = n.commitIdx) : Advance rs n m :=
  ⟨ht.trans h.tracks, fun hlt => h.raised (hc ▸ hlt)⟩

theorem Advance.of_tracks {rs : Reports} {n m : Node} (h : Tracks rs n m) (hc : m.commitIdx = n.commitIdx) :
    Advance rs n m := ⟨h, fun hlt => by omega⟩

theorem ownHolds_of_allNodes {n m : Node} {index : Nat} (hid : m.nodeId = n.nodeId) (h : m.allNodes = n.allNodes)
    (ho : OwnHolds n index) : OwnHolds m index := by
  obtain ⟨p, hp, h1, h2⟩ := ho
  exact ⟨p, h ▸ hp, hid ▸ h1, h2⟩

theorem nodeProcessCommit_lists {n : Node} {result : Int} {index node : Nat} :
    (n.nodeProcessCommit result index node).nodes = (n.ownMatch index node).nodes ∧
      (n.nodeProcessCommit result index node).newNodes = (n.ownMatch index node).newNodes ∧
      (n.nodeProcessCommit result index node).nodeId = (n.ownMatch index node).nodeId := by
  unfold Node.nodeProcessCommit
  dsimp only
  split <;> exact ⟨rfl, rfl, rfl⟩

/-- A call that reports success. -/
theorem advance_success {rs : Reports} {n : Node} {index node : Nat}
    (h : node = n.nodeId → rs.tell node index = true) : Advance rs n (n.nodeProcessCommit 0 index node) := by
  refine ⟨nodeProcessCommit_tracks fun hn => .inr (h hn), fun hlt => ?_⟩
  obtain ⟨hidx, -, hown, hmaj⟩ := nodeProcessCommit_raised hlt
  obtain ⟨h1, h2, h3⟩ := @nodeProcessCommit_lists n 0 index node
  rw [hidx]
  exact ⟨ownHolds_of_allNodes h3 nodeProcessCommit_allNodes hown, by simpa [HoldMajority, h1, h2] using hmaj⟩

/-- A call that reports an error which decides nothing. -/
theorem advance_error {rs : Reports} {n : Node} {result : Int} {index node : Nat} (h : ErrorIdle n index node) :
    Advance rs n (n.nodeProcessCommit result index node) := by
  refine ⟨nodeProcessCommit_tracks fun hn => .inl (h.own hn), fun hlt => ?_⟩
  obtain ⟨hidx, -, hown, hmaj⟩ := nodeProcessCommit_raised hlt
  obtain ⟨h1, h2, h3⟩ := @nodeProcessCommit_lists n result index node
  rw [hidx]
  refine ⟨ownHolds_of_allNodes h3 nodeProcessCommit_allNodes hown, ?_⟩
  simp only [HoldMajority, h1, h2] at hmaj ⊢
  by_cases hn : node = n.nodeId
  · -- the records of the leader itself hold the index, so nothing is counted on top of them
    have hrec : ∀ l : List RaftNode, Majority (l.map fun p => if p.id = node then { p with matchIdx := index } else p)
        (fun p => index ≤ p.matchIdx || (result ≠ 0 && p.id == node)) →
        Majority (l.map fun p => if p.id = node then { p with matchIdx := index } else p)
          fun p => index ≤ p.matchIdx || false := fun l hm => by
      refine hm.mono fun p hp hle => ?_
      obtain ⟨q, -, rfl⟩ := List.mem_map.mp hp
      by_cases hq : q.id = node
      · simp [hq]
      · simpa [hq] using hle
    simp only [Node.ownMatch, hn, if_true, Node.updNode, Node.mapNodes] at hmaj ⊢
    rw [hn] at hrec
    exact ⟨hrec _ hmaj.1, hmaj.2.imp_right fun hm => hrec _ hm⟩
  · have hsame : n.ownMatch index node = n := by rw [Node.ownMatch, if_neg hn]
    rw [hsame] at hmaj hown ⊢
    refine h.majority hown ⟨hmaj.1.mono fun p _ hp => ?_, hmaj.2.imp_right fun hm => hm.mono fun p _ hp => ?_⟩
    · simp only [Bool.or_eq_true, Bool.and_eq_true] at hp ⊢
      exact hp.imp_right And.right
    · simp only [Bool.or_eq_true, Bool.and_eq_true] at hp ⊢
      exact hp.imp_right And.right

theorem ErrorIdle.congr {n m : Node} {index node : Nat} (h : ErrorIdle n index node) (hid : m.nodeId = n.nodeId)
    (hn : m.nodes.map RaftNode.key = n.nodes.map RaftNode.key)
    (hnn : m.newNodes.map RaftNode.key = n.newNodes.map RaftNode.key) : ErrorIdle m index node := by
  have hrec : ∀ p ∈ m.allNodes, ∃ q ∈ n.allNodes, q.id = p.id ∧ q.matchIdx = p.matchIdx := by
    have hall : m.allNodes.map RaftNode.key = n.allNodes.map RaftNode.key := by
      simp only [Node.allNodes, List.map_append, hn, hnn]
    intro p hp
    obtain ⟨q, hq, hk⟩ := List.mem_map.mp (hall ▸ List.mem_map_of_mem hp : p.key ∈ n.allNodes.map RaftNode.key)
    simp only [RaftNode.key, Prod.mk.injEq] at hk
    exact ⟨q, hq, hk.1, hk.2.1⟩
  refine ⟨fun he p hp hpi => ?_, fun ho hm => ?_⟩
  · obtain ⟨q, hq, h1, h2⟩ := hrec p hp
    exact h2 ▸ h.own (he.trans hid) q hq (h1.trans hpi)
  · obtain ⟨p, hp, hpi, hle⟩ := ho
    obtain ⟨q, hq, h1, h2⟩ := hrec p hp
    have ho : OwnHolds n index := ⟨q, hq, h1.trans (hpi.trans hid), h2 ▸ hle⟩
    exact (holdMajority_congr hn hnn).mpr (h.majority ho ((holdMajority_congr hn hnn).mp hm))

/-- The answer to an error of a peer that decides nothing. -/
theorem advance_respond {rs : Reports} {n : Node} {result : Int} {point : Nat} {p : RaftNode}
    (h : p.recovering = false → n.commitIdx < point → n.log.entryTerm point = some n.currentTerm →
      ErrorIdle n point p.id) (hne : result ≠ 0) : Advance rs n (n.processResponse result point p) := by
  unfold Node.processResponse
  split
  · have hq : Quiet n (n.updNode p.id fun p => { p with recovering := false }) := Node.updNode_quiet fun _ => rfl
    exact .of_tracks (.of_quiet hq) rfl
  · next hrec =>
    split
    · next hpt => exact advance_error (h (by simpa [hne] using hrec) hpt.2.1 hpt.2.2)
    · exact .of_tracks (.of_keys rfl rfl) rfl

theorem advance_reply {n : Node} {env : Env} {dst : Nat} {hb : Bool} {r : AppendEntriesReply}
    (hsafe : ∀ i, CountsError n hb r i → ErrorIdle n i r.nodeId) :
    Advance (reportsOf n (.recv (.appendEntriesReply dst hb r))) n (n.processAppendentriesReply env hb r) := by
  unfold Node.processAppendentriesReply
  cases hg : n.getNode r.nodeId with
  | none => exact .of_tracks (.of_keys rfl rfl) rfl
  | some p =>
    have hspec : ∀ p, Node.ReplySpec n.isLeader n.currentTerm p r (replyDecide n.isLeader n.currentTerm p r hb) :=
      fun _ => Node.replyDecide_spec
    have hid : (replyDecide n.isLeader n.currentTerm p r hb).1.id = r.nodeId := by
      rw [(hspec p).id, Node.getNode_id hg]
    have hrep : n.isLeader = true ∧ r.term = n.currentTerm ∧ r.success = 1 →
        reportsOf n (.recv (.appendEntriesReply dst hb r)) = [(r.nodeId, r.currentIdx)] := fun h => by
      simp only [reportsOf]
      rw [if_pos h]
    set n₁ := n.updNode r.nodeId fun p => (replyDecide n.isLeader n.currentTerm p r hb).1 with hn₁
    have hupd : Tracks (reportsOf n (.recv (.appendEntriesReply dst hb r))) n n₁ := by
      refine tracks_updNode (fun p => (hspec p).id) fun q _ hq => ?_
      rcases (hspec q).matchIdx with h | ⟨hok, h⟩
      · exact .inl (Nat.le_of_eq h)
      · refine .inr ?_
        rw [h, hrep hok]
        exact Reports.tell_of_mem List.mem_cons_self (Nat.le_refl _)
    -- an error is answered with the match indices as they were
    have herr : ∀ m : Node, m.nodeId = n.nodeId → m.commitIdx = n.commitIdx → m.log = n.log →
        m.nodes = n₁.nodes → m.newNodes = n₁.newNodes → (m.currentTerm = n.currentTerm ∨ m.currentTerm = r.term) →
        (replyDecide n.isLeader n.currentTerm p r hb).2.Errs → ∀ x : Int, x ≠ 0 →
        Advance (reportsOf n (.recv (.appendEntriesReply dst hb r))) m (m.processResponse x
          (replyDecide n.isLeader n.currentTerm p r hb).1.endIdx (replyDecide n.isLeader n.currentTerm p r hb).1) := by
      intro m h1 h2 h3 h4 h5 h6 hact x hx
      refine advance_respond (fun hrec hlt hterm => ?_) hx
      rw [hid]
      have hi : CountsError n hb r (replyDecide n.isLeader n.currentTerm p r hb).1.endIdx := by
        refine ⟨Node.errPoint_eq hg hact hrec (h2 ▸ hlt), ?_⟩
        rw [← h3, hterm]
        exact h6.imp (congrArg some) (congrArg some)
      refine (hsafe _ hi).congr h1 ?_ ?_
      · rw [h4]
        exact Node.map_key_updNode fun q _ _ => Node.replyDecide_keys hact q
      · rw [h5]
        exact Node.map_key_updNode fun q _ _ => Node.replyDecide_keys hact q
    dsimp only
    split
    · exact .of_tracks hupd rfl
    · exact .of_tracks hupd rfl
    · next x hx =>
      exact (herr n₁ rfl rfl rfl rfl rfl (.inl rfl) (.inl ⟨x, hx⟩) x ((hspec p).respond x hx).1).after hupd rfl
    · next hx =>
      have hlt : n₁.currentTerm < r.term := (hspec p).stepDown hx
      obtain ⟨h1, h2, h3, h4⟩ := @Node.stepDownTo_keeps n₁ env r.term
      have hlog : (n₁.stepDownTo env r.term).log = n.log ∧ (n₁.stepDownTo env r.term).currentTerm = r.term := by
        rw [Node.stepDownTo, if_pos hlt, Node.setCurrentTerm, if_pos hlt]
        exact ⟨rfl, rfl⟩
      exact (herr _ h1 h2 hlog.1 h3 h4 (.inr hlog.2) (.inr hx) _ (by simp [errNotLeader])).after
        (hupd.trans (.of_keys (by rw [h3]) (by rw [h4]))) h2
    · exact (Advance.of_tracks (.of_quiet Node.dispatchRecovery_quiet.1) Node.dispatchRecovery_quiet.2).after hupd rfl
    · next hx =>
      obtain ⟨hlead, hs, ht⟩ := (hspec p).commit hx
      refine Advance.after ?_ hupd rfl
      unfold Node.processResponse
      rw [if_neg (by simp)]
      split
      · rw [hrep ⟨hlead, ht, hs⟩, hid]
        exact advance_success fun _ => Reports.tell_of_mem List.mem_cons_self (Nat.le_refl _)
      · exact .of_tracks (.of_keys rfl rfl) rfl

theorem advance_diskAppend {rs : Reports} {n : Node} {last : Nat} {es : List Entry} {res : Int}
    (hok : res = 0 → rs.tell n.nodeId last = true) (herr : res ≠ 0 → ErrorIdle n last n.nodeId) :
    Advance rs n (n.diskAppendDone last es res) := by
  unfold Node.diskAppendDone
  by_cases h0 : res = 0
  · rw [h0, if_pos rfl]
    have h : Advance rs ({ n with log := { n.log with disk := n.log.disk.append es } } : Node) _ :=
      advance_success fun _ => hok h0
    exact h.after (.of_keys rfl rfl) rfl
  · simp only [h0, if_false]
    exact advance_error (herr h0)

theorem sendSnapshotCheck_quiet {n failed : Node} {env : Env} {node : Nat} (h : Quiet n failed) :
    Quiet n (n.sendSnapshotCheck env node failed) := by
  unfold Node.sendSnapshotCheck
  split
  · exact .refl n
  · split
    · exact .emit (by simp [Out.VoteFree])
    · exact h

/-- A reply to installsnapshot: the last one of a snapshot moves the match
index of the peer. -/
theorem advance_installReply {n : Node} {env : Env} {dst : Nat} {r : InstallSnapshotReply} :
    Role n (n.processInstallsnapshotReply env r) ∧
      Tracks (reportsOf n (.recv (.installSnapshotReply dst r))) n (n.processInstallsnapshotReply env r) := by
  have hdel : ∀ m : Node, ∀ i b, Quiet m (m.recoveryDelete i b) := fun m i b => .of_eq rfl rfl
  have hquiet : ∀ {m : Node}, Quiet n m → Role n m ∧
      Tracks (reportsOf n (.recv (.installSnapshotReply dst r))) n m := fun h => ⟨.of_quiet h, .of_quiet h⟩
  unfold Node.processInstallsnapshotReply
  split
  · next p o hp ho =>
    split
    · exact hquiet (hdel n _ _)
    · next hl =>
      split
      · obtain ⟨-, -, h3, h4⟩ := @Node.stepDownTo_keeps n env r.term
        refine ⟨role_stepDownTo.trans (.of_quiet (hdel _ _ _)), Tracks.trans ?_ (.of_quiet (hdel _ _ _))⟩
        exact .of_keys (by rw [h3]) (by rw [h4])
      · split
        · exact hquiet (hdel n _ _)
        · next ht =>
          split
          · exact hquiet (hdel n _ _)
          · next hs =>
            have hlease : Quiet n (n.updNode p.id fun p => p.setLease r.lease) := Node.updNode_quiet fun _ => rfl
            dsimp only
            split
            · next hend =>
              have hrep : reportsOf n (.recv (.installSnapshotReply dst r)) = [(r.nodeId, n.snapshotIndex)] := by
                have ht : r.term = n.currentTerm := by omega
                have hs : r.success = 1 := by omega
                simp only [reportsOf, ho, Option.any_some, hend, ht, hs]
                rw [if_pos ⟨by simpa using hl, trivial, trivial, trivial⟩]
              constructor
              · refine ((Role.of_quiet hlease).trans ?_).trans (.of_quiet (hdel _ _ _))
                refine .of_elect (Mild.elect ?_)
                exact Node.updNode_mild fun _ => ⟨rfl, rfl⟩
              · refine (Tracks.trans (.of_quiet hlease) ?_).trans (.of_quiet (hdel _ _ _))
                refine tracks_updNode (fun _ => rfl) fun q _ _ => .inr ?_
                rw [hrep, Node.getNode_id hp]
                exact Reports.tell_of_mem List.mem_cons_self (Nat.le_refl _)
            · exact hquiet (hlease.trans (sendSnapshotCheck_quiet (hdel _ _ _)))
  · exact hquiet (.refl n)

/-! ## Histories -/

/-- A server that is a leader after other events has its members as
before, or has just been elected. -/
def Unmoved (n m : Node) : Prop :=
  m.identity = .leader → (∀ p ∈ m.allNodes, p.matchIdx = 0) ∨ m.peers = n.peers

theorem Unmoved.act {inp : Event → Prop} {R : Risks} {n m m' : Node} (h : Unmoved n m) (ha : Act inp R m m')
    (hno : ¬Moves inp) : Unmoved n m' := by
  rcases ha.quiet with he | hq | ⟨hm, -⟩
  · cases he with
    | setTerm hlt hi =>
      intro hl
      rw [Node.setCurrentTerm_identity] at hl
      rcases hi with hi | ⟨hi, -⟩ <;> rw [hi] at hl <;> cases hl
    | follower => exact fun hl => by cases hl
    | candidate => exact fun hl => by cases hl
    | prevoted hc =>
      intro hl
      have hid : (m.setCurrentTerm (m.currentTerm + 1)).identity = .leader := hl
      rw [Node.setCurrentTerm_identity, hc] at hid
      cases hid
    | sendVotes hc => exact fun hl => by rw [show m.identity = _ from hl] at hc; cases hc
    | lead hc hp hm hR =>
      refine fun _ => .inl fun p hp => ?_
      simp only [Node.allNodes, Node.becomeLeader, Node.emit, Node.mapNodes, ← List.map_append] at hp
      obtain ⟨q, -, rfl⟩ := List.mem_map.mp hp
      unfold Node.leaderPeer
      dsimp only
      split <;> rfl
    | grant hi hl' => exact fun hl => absurd hl hl'
    | voteFlag hi hc => exact fun hl => by rw [show m.identity = _ from hl] at hc; cases hc
  · intro hl
    obtain ⟨hl', -⟩ := Role.of_quiet hq hl
    rcases h hl' with h0 | hp
    · refine .inl fun p' hp' => ?_
      have htr : Tracks [] m m' := .of_quiet hq
      obtain ⟨p, hp, -, hle | ht⟩ := htr p' hp'
      · have := h0 p hp
        omega
      · cases ht
    · exact .inr (hq.peers.trans hp)
  · exact absurd hm hno

/-- The events that move match indices. -/
def moves : Event → Bool
  | .recv (.appendEntriesReply _ _ _) => true
  | .recv (.installSnapshotReply _ _) => true
  | .finish (.diskAppend _ _ _) _ _ => true
  | _ => false

theorem unmoved_handle {md5 : Bytes → Bytes} {n : Node} {env : Env} {ev : Event} (h : AnyEvent ev)
    (hno : moves ev = false) : Unmoved n (n.handle md5 env ev) := by
  have hacts : Acts (· = ev) Risks.none n (n.handle md5 env ev) := Node.handle_acts rfl h.risksOk
  have hmoves : ¬Moves (· = ev) := by
    rintro (⟨dst, hb, r, rfl⟩ | ⟨dst, r, rfl⟩ | ⟨first, last, es, res, io, rfl⟩) <;> cases hno
  generalize n.handle md5 env ev = m at hacts
  induction hacts with
  | refl => exact fun _ => .inr rfl
  | tail _ ha ih => exact ih.act ha hmoves

/-- What a leader knows of its members was reported to it. -/
def HistoryInv (s : History) : Prop := s.node.identity = .leader → Backed s.reports s.node

theorem role_handle {md5 : Bytes → Bytes} {n : Node} {env : Env} {ev : Event} (hm : moves ev = true) :
    Role n (n.handle md5 env ev) := by
  cases ev with
  | recv m =>
    cases m with
    | appendEntriesReply dst hb r => exact role_processAppendentriesReply
    | installSnapshotReply dst r => exact (@advance_installReply n env dst r).1
    | _ => cases hm
  | finish p res io =>
    cases p with
    | diskAppend first last es =>
      dsimp only [Node.handle]
      split
      · have hmild : ∀ m : Node, Role m (m.nodeProcessCommit res last m.nodeId) := fun m =>
          .of_elect Node.nodeProcessCommit_mild.elect
        dsimp only [Node.finishWork, Node.diskAppendDone]
        split
        · exact hmild _
        · exact hmild _
      · exact .of_elect rfl
    | _ => cases hm
  | _ => cases hm

/-- What a safe event did that calls `raft_node_process_commit`. -/
theorem advance_handle {md5 : Bytes → Bytes} {s : History} {env : Env} {ev : Event} (hl : s.node.identity = .leader)
    (hc : callsCommit ev = true) (hsafe : CommitSafe s (.event env ev)) :
    Advance (reportsOf s.node ev) s.node (s.node.handle md5 env ev) := by
  cases ev with
  | recv m =>
    cases m with
    | appendEntriesReply dst hb r => exact advance_reply (hsafe hl)
    | _ => cases hc
  | finish p res io =>
    cases p with
    | diskAppend first last es =>
      dsimp only [Node.handle]
      split
      · next hp =>
        have h : Advance (reportsOf s.node (.finish (.diskAppend first last es) res io))
            ({ s.node with pending := s.node.pending.erase (.diskAppend first last es) } : Node) _ :=
          @advance_diskAppend _ _ last es res (fun h0 => ?_) fun h0 => ?_
        · exact h.after (.of_keys rfl rfl) rfl
        · simp only [reportsOf]
          rw [if_pos ⟨hp, h0⟩]
          exact Reports.tell_of_mem List.mem_cons_self (Nat.le_refl _)
        · exact (hsafe hl (by simpa using hp) h0).congr rfl rfl rfl
      · exact .of_tracks (.of_keys rfl rfl) rfl
    | _ => cases hc
  | _ => cases hc

theorem HistoryInv.event {md5 : Bytes → Bytes} {s : History} {env : Env} {ev : Event} (h : HistoryInv s)
    (he : AnyEvent ev) (hsafe : CommitSafe s (.event env ev)) : HistoryInv (s.next md5 env ev) := by
  intro hl
  have hl : (s.node.handle md5 env ev).identity = .leader := hl
  dsimp only [History.next]
  cases hm : moves ev with
  | false =>
    rcases unmoved_handle he hm hl with h0 | hp
    · exact fun p hp => .inl (h0 p hp)
    · simp only [Node.peers, Prod.mk.injEq] at hp
      have hl' : s.node.identity = .leader := hp.2.2.2.1 ▸ hl
      have hel : History.elected s.node (s.node.handle md5 env ev) = false := by
        simp [History.elected, Node.isLeader, hl, hl', hp.2.1]
      rw [hel]
      exact (h hl').tracks (.of_keys hp.2.2.2.2.2.1 hp.2.2.2.2.2.2)
  | true =>
    obtain ⟨hl', ht⟩ := role_handle hm hl
    have hel : History.elected s.node (s.node.handle md5 env ev) = false := by
      simp [History.elected, Node.isLeader, hl, hl', ht]
    rw [hel]
    refine (h hl').tracks ?_
    by_cases hc : callsCommit ev = true
    · exact (advance_handle hl' hc hsafe).tracks
    · cases ev with
      | recv m =>
        cases m with
        | installSnapshotReply dst r => exact advance_installReply.2
        | appendEntriesReply dst hb r => exact absurd rfl hc
        | _ => cases hm
      | finish p res io =>
        cases p with
        | diskAppend first last es => exact absurd rfl hc
        | _ => cases hm
      | _ => cases hm

theorem HistoryInv.members {s : History} {told : Reports} {n : Node} (h : HistoryInv s) (hr : s.Reconfigured told n)
    (hsafe : CommitSafe s (.members told n)) : HistoryInv ⟨n, s.reports ++ told⟩ := by
  intro hl p hp
  have hk : s.Keeps told p := (hr.member p hp).elim (hsafe hl p hp) id
  rcases hk with h0 | ⟨q, hq, hid, hm⟩ | ht
  · exact .inl h0
  · rw [hm, ← hid]
    exact (h (hr.leader hl).1 q hq).imp_right fun ht => by rw [Reports.tell_append, ht, Bool.true_or]
  · exact .inr (by rw [Reports.tell_append, Reports.tell_of_mem ht (Nat.le_refl _), Bool.or_true])

theorem historyInv {md5 : Bytes → Bytes} : ((history md5).restrict CommitSafe).Inductive HistoryInv where
  init _ h hl := absurd hl h
  step s l s' h hs := by
    obtain ⟨hsafe, hs⟩ := hs
    cases hs with
    | event he => exact h.event he hsafe
    | members hr => exact h.members hr hsafe

theorem moves_of_callsCommit {ev : Event} (h : callsCommit ev = true) : moves ev = true := by
  unfold callsCommit at h
  split at h
  · rfl
  · rfl
  · cases h

/-- **Commit rule.** In every history in which no error decides a commit,
a call of `raft_node_process_commit` at a leader raises the commit index
only to an index up to which the leader and a majority of its members have
reported that they stored the log. -/
theorem commit_rule {md5 : Bytes → Bytes} {s s' : History} {env : Env} {ev : Event}
    (hr : ((history md5).restrict CommitSafe).Reachable s)
    (hs : ((history md5).restrict CommitSafe).step s (.event env ev) s') (hl : s.node.identity = .leader)
    (hcall : callsCommit ev = true) (hc : s.node.commitIdx < s'.node.commitIdx) :
    Stored s'.reports s'.node s'.node.commitIdx := by
  obtain ⟨hsafe, hs⟩ := hs
  cases hs
  have hadv : Advance _ _ (s.node.handle md5 env ev) := advance_handle hl hcall hsafe
  obtain ⟨hown, hmaj⟩ := hadv.raised hc
  have hel : History.elected s.node (s.node.handle md5 env ev) = false := by
    by_cases hl' : (s.node.handle md5 env ev).identity = .leader
    · have ht := (role_handle (moves_of_callsCommit hcall) hl').2
      simp [History.elected, Node.isLeader, hl, hl', ht]
    · simp [History.elected, Node.isLeader, hl']
  dsimp only [History.next]
  rw [hel]
  exact ((historyInv.reachable hr hl).tracks hadv.tracks).stored (Nat.zero_lt_of_lt hc) hown hmaj

/-! ## A leader of three -/

/-- The event neither is a reply nor reports an error of the disk. -/
def errorFree : Event → Bool
  | .recv (.appendEntriesReply _ _ _) => false
  | .finish (.diskAppend _ _ _) res _ => res = 0
  | _ => true

theorem reachable_foldl {md5 : Bytes → Bytes} {env : Env} {evs : List Event} {s : History}
    (hs : ((history md5).restrict CommitSafe).Reachable s)
    (h : ∀ ev ∈ evs, AnyEvent ev ∧ errorFree ev = true) :
    ((history md5).restrict CommitSafe).Reachable (evs.foldl (fun s ev => s.next md5 env ev) s) := by
  induction evs generalizing s with
  | nil => exact hs
  | cons ev evs ih =>
    obtain ⟨he, hf⟩ := h ev List.mem_cons_self
    refine ih (hs.step (l := .event env ev) ⟨?_, .event he⟩) fun ev' h' => h ev' (List.mem_cons_of_mem _ h')
    unfold errorFree at hf
    split at hf
    · cases hf
    · exact fun _ _ hne => absurd (of_decide_eq_true hf) hne
    · next hr hd =>
      unfold CommitSafe
      split
      · next heq => cases heq; exact absurd rfl (hr _ _ _)
      · next heq => cases heq; exact absurd rfl (hd _ _ _ _ _)
      · next heq => cases heq
      · trivial

/-- Server 0 is elected by server 1, takes over a write, sends it to its
peers and stores it. -/
def leading : History :=
  [.periodic, .recv (.requestVoteReply 0 ⟨1, 0, .granted, true⟩), .recv (.requestVoteReply 0 ⟨1, 1, .granted, false⟩),
    .write (Cluster.writeOf 1 0 0) 7, .task, .finish (.diskAppend 1 1 [Cluster.writeOf 1 1 1]) 0 {}].foldl
    (fun s ev => s.next id (Cluster.envAt 3000) ev) ⟨boot Cluster.trio 0 0 0 1000 true, []⟩

theorem leading_reachable : ((history id).restrict CommitSafe).Reachable leading :=
  reachable_foldl (.of_init fun h => by cases h) (by decide)

/-- Server 1 stores the entry as well: the leader commits it. -/
theorem commit_rule_replicated :
    let s' := leading.next id (Cluster.envAt 3000) (.recv (.appendEntriesReply 0 false ⟨1, 1, 1, 1, 1, 4000⟩))
    s'.node.commitIdx = 1 ∧ Stored s'.reports s'.node s'.node.commitIdx := by
  have hnone : leading.node.errPoint false ⟨1, 1, 1, 1, 1, 4000⟩ = none := by decide +kernel
  have hsafe : CommitSafe leading (.event (Cluster.envAt 3000)
      (.recv (.appendEntriesReply 0 false ⟨1, 1, 1, 1, 1, 4000⟩))) := fun _ i h => by
    rw [CountsError, hnone] at h
    cases h.1
  refine ⟨by decide +kernel, commit_rule leading_reachable ⟨hsafe, .event trivial⟩ ?_ rfl ?_⟩
  · decide +kernel
  · decide +kernel

/-- Server 1 answers that its disk is full, and the leader commits an entry
that it alone has stored. -/
theorem error_reply_commits :
    let ev : Event := .recv (.appendEntriesReply 0 false ⟨1, 1, errNoSpc, 0, 1, 4000⟩)
    let s' := leading.next id (Cluster.envAt 3000) ev
    (history id).Reachable leading ∧ (history id).step leading (.event (Cluster.envAt 3000) ev) s' ∧
      leading.node.identity = .leader ∧ callsCommit ev = true ∧ leading.node.commitIdx < s'.node.commitIdx ∧
      ¬Stored s'.reports s'.node s'.node.commitIdx := by
  intro ev s'
  have hmaj : ¬Majority s'.node.nodes fun p => s'.reports.tell p.id s'.node.commitIdx := by decide +kernel
  refine ⟨leading_reachable.of_restrict, .event trivial, ?_, rfl, ?_, fun h => hmaj h.nodes⟩
  · decide +kernel
  · decide +kernel

end Fastblock.L4
