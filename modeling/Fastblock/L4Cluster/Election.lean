import Fastblock.Core.Quorum
import Fastblock.L4Cluster.Cluster

/-!
# Election safety

The ghost state is the table of votes: the candidate a server voted for in
a term, itself included. A vote is never changed, a granted reply in
flight is backed by a vote, and so is every vote flag of a candidate that
has passed its prevote round; flags of a prevote round mean nothing. A
leader has the votes of a majority for its term, and two majorities share
a voter.

* `VoteInv.electAct`: one act of an election, case by case.
* `election_safety`: in no state two leaders of one term.
* `elected_once`: in no run two servers that won the same term.
-/
namespace Fastblock.L4

open Fastblock.Core Fastblock.L3.Raft Fastblock.L3.Raft.Node

/-- `V i t`: whom server `i` voted for in term `t`. -/
abbrev Votes := Nat → Nat → Option Nat

/-- Server `i` may have added votes of its own. -/
structure Votes.Ext (i : Nat) (V V' : Votes) : Prop where
  mono : ∀ j t x, V j t = some x → V' j t = some x
  other : ∀ j, j ≠ i → V' j = V j

namespace Votes

theorem Ext.refl {i : Nat} (V : Votes) : Ext i V V := ⟨fun _ _ _ h => h, fun _ _ => rfl⟩

theorem Ext.trans {i : Nat} {V V' V'' : Votes} (h : Ext i V V') (h' : Ext i V' V'') : Ext i V V'' :=
  ⟨fun j t x hx => h'.mono j t x (h.mono j t x hx), fun j hj => (h'.other j hj).trans (h.other j hj)⟩

/-- The table with the vote of `i` in term `t` set. -/
def set (V : Votes) (i t x : Nat) : Votes := fun j u => if j = i ∧ u = t then some x else V j u

theorem set_same {V : Votes} {i t x : Nat} : V.set i t x i t = some x := by simp [set]

theorem ext_set {V : Votes} {i t x : Nat} (h : V i t = none ∨ V i t = some x) : Ext i V (V.set i t x) where
  mono j u y hy := by
    unfold set
    split
    · rename_i hju
      obtain ⟨rfl, rfl⟩ := hju
      rcases h with h | h <;> simp_all
    · exact hy
  other j hj := by
    funext u
    simp [set, hj]

/-- The server won its term: a majority voted for it. -/
def Won (cfg : Config) (V : Votes) (t i : Nat) : Prop := Majority cfg.members fun j => V j t = some i

theorem Won.mono {cfg : Config} {V V' : Votes} {i k t : Nat} (hx : Ext k V V') (h : Won cfg V t i) :
    Won cfg V' t i :=
  Majority.mono h fun j _ hj => by simpa using hx.mono j t i (by simpa using hj)

/-- A term is won by one server at most. -/
theorem Won.unique {cfg : Config} {V : Votes} {t i j : Nat} (hi : Won cfg V t i) (hj : Won cfg V t j) :
    i = j := by
  obtain ⟨k, -, h1, h2⟩ := Majority.inter hi hj
  simp only [decide_eq_true_eq] at h1 h2
  rw [h1] at h2
  exact Option.some.inj h2

end Votes

/-- What the votes say about one server. -/
structure VoteInv (cfg : Config) (V : Votes) (n : Node) : Prop where
  members : n.nodes.map (·.id) = cfg.members
  newNodes : n.newNodes = []
  vote : V n.nodeId n.currentTerm = n.votedFor
  future : ∀ t, n.currentTerm < t → V n.nodeId t = none
  flags : n.identity = .candidate → n.prevote = false →
    ∀ p ∈ n.nodes, p.voteForMe = true → V p.id n.currentTerm = some n.nodeId
  leader : n.identity = .leader → V.Won cfg n.currentTerm n.nodeId

/-- What the votes say about an output. -/
def VoteOut (V : Votes) : Out → Prop
  | .send (.requestVote _ vr) => vr.nodeId = vr.candidateId
  | .send (.requestVoteReply dst r) =>
    r.voteGranted = .granted → r.prevote = false → V r.nodeId r.term = some dst
  | _ => True

theorem VoteOut.mono {V V' : Votes} {i : Nat} {o : Out} (hx : V.Ext i V') (h : VoteOut V o) : VoteOut V' o := by
  unfold VoteOut at *
  split at h
  · exact h
  · exact fun h1 h2 => hx.mono _ _ _ (h h1 h2)
  · trivial

theorem VoteOut.of_voteFree {V : Votes} {o : Out} (h : o.VoteFree) : VoteOut V o := by
  unfold VoteOut
  split
  · exact h.elim
  · intro h1 h2
    have := h h1
    simp [this] at h2
  · trivial

/-- An election that server `i` reports as won had the votes of a
majority. -/
def WonOut (cfg : Config) (V : Votes) (i : Nat) : Out → Prop
  | .leaderElected t _ _ => V.Won cfg t i
  | _ => True

theorem WonOut.mono {cfg : Config} {V V' : Votes} {i k : Nat} {o : Out} (hx : V.Ext k V') (h : WonOut cfg V i o) :
    WonOut cfg V' i o := by
  unfold WonOut at *
  split at h
  · exact h.mono hx
  · trivial

theorem WonOut.of_voteFree {cfg : Config} {V : Votes} {i : Nat} {o : Out} (h : o.VoteFree) : WonOut cfg V i o := by
  unfold WonOut
  split
  · exact h.elim
  · trivial

/-- What acting does to the votes: the table grows by the votes that leave
the server. -/
structure VoteStep (cfg : Config) (V V' : Votes) (n n' : Node) : Prop where
  ext : V.Ext n.nodeId V'
  inv : VoteInv cfg V' n'
  nodeId : n'.nodeId = n.nodeId
  out : ∃ os, n'.out = n.out ++ os ∧ (∀ o ∈ os, VoteOut V' o ∧ WonOut cfg V' n.nodeId o) ∧
    ((∀ o ∈ os, o.voteFor = none) → V' = V)

namespace VoteInv

variable {cfg : Config} {V V' : Votes} {n n' : Node} {i : Nat}

theorem stable (hx : V.Ext i V') (hi : n.nodeId ≠ i) (h : VoteInv cfg V n) : VoteInv cfg V' n where
  members := h.members
  newNodes := h.newNodes
  vote := by rw [hx.other _ hi]; exact h.vote
  future := by rw [hx.other _ hi]; exact h.future
  flags h1 h2 p hp h3 := hx.mono _ _ _ (h.flags h1 h2 p hp h3)
  leader h1 := (h.leader h1).mono hx

theorem congr (h : VoteInv cfg V n) (he : n'.elect = n.elect) : VoteInv cfg V n' := by
  simp only [elect, Prod.mk.injEq] at he
  obtain ⟨h1, h2, h3, h4, h5, h6, h7⟩ := he
  refine ⟨?_, ?_, ?_, ?_, ?_, ?_⟩
  · have : n'.nodes.map (·.id) = n.nodes.map (·.id) := by
      simpa [Function.comp_def] using congrArg (List.map Prod.fst) h6
    rw [this, h.members]
  · simpa [h.newNodes] using h7
  · rw [h1, h2, h3, h.vote]
  · rw [h1, h2]
    exact h.future
  · rw [h1, h2, h4, h5]
    intro hc hp p hpm hv
    have hmem : (p.id, p.voteForMe) ∈ n.nodes.map fun p => (p.id, p.voteForMe) := by
      rw [← h6]
      exact List.mem_map_of_mem hpm
    obtain ⟨q, hq, hqe⟩ := List.mem_map.mp hmem
    simp only [Prod.mk.injEq] at hqe
    rw [← hqe.1]
    exact h.flags hc hp q hq (hqe.2.trans hv)
  · rw [h1, h2, h4]
    exact h.leader

/-- The vote flags of a majority are votes of a majority. -/
theorem won_of_flags (h : VoteInv cfg V n) (hc : n.identity = .candidate) (hp : n.prevote = false)
    (hm : n.hasMajorityVotes = true) : V.Won cfg n.currentTerm n.nodeId := by
  have hcount : n.nodes.countP (·.voteForMe) ≤
      n.nodes.countP fun p => decide (V p.id n.currentTerm = some n.nodeId) :=
    List.countP_mono_left fun p hpm hv => by simpa using h.flags hc hp p hpm hv
  have hhalf : n.nodes.length / 2 + 1 ≤ n.nodes.countP (·.voteForMe) := by
    simp only [hasMajorityVotes, votesIsMajority] at hm
    split at hm
    · simp at hm
    · simp only [Bool.and_eq_true, decide_eq_true_eq] at hm
      exact hm.1
  unfold Votes.Won Majority
  rw [← h.members, List.length_map, List.countP_map]
  exact Nat.lt_of_lt_of_le hhalf hcount

variable {inp : Event → Prop} {R : Risks}

/-- What delivered messages say about votes. -/
def InpOk (V : Votes) (inp : Event → Prop) (i : Nat) : Prop :=
  ∀ m, inp (.recv m) → VoteOut V (.send m) ∧ msgDst m = i

/-- A candidate that passed its prevote round votes for itself in the next
term, in which it has not voted. -/
theorem prevoted (h : VoteInv cfg V n) (hc : n.identity = .candidate) :
    VoteStep cfg V (V.set n.nodeId (n.currentTerm + 1) n.nodeId) n
      { ((n.setCurrentTerm (n.currentTerm + 1)).resetVotes).voteForNodeid n.nodeId with prevote := false } := by
  have hnone := h.future (n.currentTerm + 1) (Nat.lt_succ_self _)
  have hterm : n.setCurrentTerm (n.currentTerm + 1) =
      { n with currentTerm := n.currentTerm + 1, votedFor := none,
               out := n.out ++ [.put (.term (n.currentTerm + 1))] } := by simp [setCurrentTerm]
  refine ⟨Votes.ext_set (.inl hnone), ?_, ?_, ?_⟩ <;> rw [hterm]
  · refine ⟨?_, ?_, ?_, ?_, ?_, ?_⟩
    · simpa [voteForNodeid, resetVotes, mapNodes, Function.comp_def] using h.members
    · simp [voteForNodeid, resetVotes, mapNodes, h.newNodes]
    · exact Votes.set_same
    · intro t ht
      have ht : n.currentTerm + 1 < t := ht
      have : V n.nodeId t = none := h.future t (by omega)
      simp only [voteForNodeid, resetVotes, mapNodes, Votes.set]
      rw [if_neg (by omega), this]
    · intro _ _ p hpm hv
      -- only the server's own flag is set
      simp only [voteForNodeid, resetVotes, mapNodes, List.mem_map] at hpm
      obtain ⟨q, -, rfl⟩ := hpm
      have hq : q.id = n.nodeId := by simpa [isSelf] using hv
      simp only [hq]
      exact Votes.set_same
    · simp [voteForNodeid, resetVotes, mapNodes, hc]
  · rfl
  · exact ⟨[.put (.term (n.currentTerm + 1)), .put (.voteFor n.nodeId)],
      by simp [voteForNodeid, resetVotes, mapNodes], by simp [VoteOut, WonOut], by simp [Out.voteFor]⟩

theorem lead {env : Env} (h : VoteInv cfg V n) (hwon : V.Won cfg n.currentTerm n.nodeId) :
    VoteStep cfg V V n (n.becomeLeader env) := by
  have hpeer : ∀ p, (n.leaderPeer env p).id = p.id := fun p => by
    unfold leaderPeer
    dsimp only
    split <;> rfl
  refine ⟨.refl V, ⟨?_, ?_, h.vote, h.future, ?_, fun _ => hwon⟩, rfl, ?_⟩
  · have : (n.becomeLeader env).nodes.map (·.id) = n.nodes.map (·.id) := by
      simp only [becomeLeader, emit, mapNodes, List.map_map]
      exact List.map_congr_left fun p _ => hpeer p
    rw [this, h.members]
  · simp [becomeLeader, emit, mapNodes, h.newNodes]
  · simp [becomeLeader, emit, mapNodes]
  · simp only [becomeLeader, emit, mapNodes, List.append_assoc]
    refine ⟨_, rfl, fun o ho => ?_, by simp⟩
    rcases List.mem_append.mp ho with ho | ho
    · obtain ⟨p, -, hp⟩ := List.mem_flatMap.mp ho
      unfold appendOut at hp
      split at hp
      · rw [List.mem_singleton.mp hp]
        exact ⟨trivial, trivial⟩
      · cases hp
    · rw [List.mem_singleton.mp ho]
      exact ⟨trivial, hwon⟩

/-- A vote is granted twice only to the same candidate. -/
theorem vote_of_shouldGrantVote {vr : RequestVote} (h : VoteInv cfg V n) (hp : vr.prevote = false)
    (hg : n.shouldGrantVote vr = true) :
    V n.nodeId n.currentTerm = none ∨ V n.nodeId n.currentTerm = some vr.candidateId := by
  rw [h.vote]
  simp only [shouldGrantVote, hp] at hg
  split at hg
  · simp at hg
  · split at hg
    · simp at hg
    · rename_i hv
      by_contra hcon
      rw [not_or] at hcon
      simp [hcon.1, hcon.2] at hv

theorem grant {vr : RequestVote} (h : VoteInv cfg V n) (hid : vr.nodeId = vr.candidateId)
    (hl : n.identity ≠ .leader) (hp : vr.prevote = false) (hg : n.shouldGrantVote vr = true) :
    VoteStep cfg V (V.set n.nodeId n.currentTerm vr.candidateId) n
      ((n.voteForNodeid vr.candidateId).voteReply vr .granted) := by
  have hx := Votes.ext_set (h.vote_of_shouldGrantVote hp hg)
  refine ⟨hx, ⟨h.members, h.newNodes, Votes.set_same, ?_, ?_, ?_⟩, rfl, _,
    by simp only [voteReply, voteForNodeid, emit, List.append_assoc]; rfl, ?_, by simp [Out.voteFor]⟩
  · intro t hlt
    have hlt : n.currentTerm < t := hlt
    have : V n.nodeId t = none := h.future t hlt
    simp only [voteReply, voteForNodeid, emit, Votes.set]
    rw [if_neg (by omega), this]
  · intro h1 h2 p hpm hv
    exact hx.mono _ _ _ (h.flags h1 h2 p hpm hv)
  · exact fun hld => absurd hld hl
  · intro o ho
    rcases List.mem_append.mp ho with ho | ho <;> rw [List.mem_singleton.mp ho] <;> refine ⟨?_, trivial⟩
    · trivial
    · intro _ _
      simp only [hid]
      exact Votes.set_same

/-- The reply that sets the flag of a peer is backed by a vote. -/
theorem voteFlag {k : Nat} (h : VoteInv cfg V n) (hc : n.identity = .candidate)
    (hk : n.prevote = false → V k n.currentTerm = some n.nodeId) :
    VoteStep cfg V V n (n.updNode k fun p => { p with voteForMe := true }) := by
  refine ⟨.refl V, ⟨?_, ?_, h.vote, h.future, ?_, ?_⟩, rfl, [], by simp [updNode, mapNodes], by simp, fun _ => rfl⟩
  · have : (n.updNode k fun p => { p with voteForMe := true }).nodes.map (·.id) = n.nodes.map (·.id) := by
      simp only [updNode, mapNodes, List.map_map]
      exact List.map_congr_left fun p _ => by dsimp only [Function.comp]; split <;> rfl
    rw [this, h.members]
  · simp [updNode, mapNodes, h.newNodes]
  · intro h1 h2 p hpm hv
    simp only [updNode, mapNodes, List.mem_map] at hpm
    obtain ⟨q, hq, rfl⟩ := hpm
    split
    · rename_i hqi
      simp only [hqi]
      exact hk h2
    · rename_i hqi
      rw [if_neg hqi] at hv
      exact h.flags h1 h2 q hq hv
  · exact fun hld => absurd (hc.symm.trans hld) (by simp)

/-- One act of an election extends the votes of the server that acts. -/
theorem electAct (hin : InpOk V inp n.nodeId) (h : VoteInv cfg V n) (ha : ElectAct inp R n n') :
    ∃ V', VoteStep cfg V V' n n' := by
  cases ha with
  | @setTerm t hlt hi =>
    refine ⟨V, .refl V, ?_, ?_, ?_⟩ <;> rw [setCurrentTerm, if_pos hlt]
    · refine ⟨h.members, h.newNodes, h.future t hlt, fun u hu => h.future u (Nat.lt_trans hlt hu), ?_, ?_⟩
      · intro hc hp
        rcases hi with hi | hi <;> simp_all
      · intro hl
        rcases hi with hi | hi <;> simp_all
    · exact ⟨_, rfl, by simp [VoteOut, WonOut], fun _ => rfl⟩
  | follower =>
    exact ⟨V, .refl V, ⟨h.members, h.newNodes, h.vote, h.future, by simp, by simp⟩, rfl, [], by simp, by simp,
      fun _ => rfl⟩
  | candidate =>
    refine ⟨V, .refl V, ⟨?_, ?_, h.vote, h.future, ?_, ?_⟩, rfl, [], by simp [resetVotes, mapNodes], by simp,
      fun _ => rfl⟩
    · simpa [resetVotes, mapNodes, Function.comp_def] using h.members
    · simp [resetVotes, mapNodes, h.newNodes]
    · simp [resetVotes, mapNodes]
    · simp [resetVotes, mapNodes]
  | prevoted hc => exact ⟨_, h.prevoted hc⟩
  | sendVotes hc =>
    refine ⟨V, .refl V, h.congr rfl, rfl, _, rfl, fun o ho => ?_, fun _ => rfl⟩
    obtain ⟨p, -, rfl⟩ := List.mem_map.mp ho
    exact ⟨rfl, trivial⟩
  | lead hc hp hm => exact ⟨V, h.lead (h.won_of_flags hc hp hm)⟩
  | grant hi hl _ hp hg => exact ⟨_, h.grant (hin _ hi).1 hl hp hg⟩
  | @voteFlag dst r hi hc hp ht hg =>
    refine ⟨V, h.voteFlag hc fun hv => ?_⟩
    have hvote := (hin _ hi).1 hg (hp.symm.trans hv)
    rw [← ht] at hvote
    exact hvote.trans (congrArg some (hin _ hi).2)

theorem act (hin : InpOk V inp n.nodeId) (h : VoteInv cfg V n) (ha : Act inp R n n') :
    ∃ V', VoteStep cfg V V' n n' := by
  rcases ha.frame with he | hq
  · exact electAct hin h he
  · obtain ⟨os, ho, hf⟩ := hq.out
    have hid : n'.nodeId = n.nodeId := congrArg Prod.fst hq.elect
    exact ⟨V, .refl V, h.congr hq.elect, hid, os, ho,
      fun o hmem => ⟨.of_voteFree (hf o hmem), .of_voteFree (hf o hmem)⟩, fun _ => rfl⟩

theorem acts (hin : InpOk V inp n.nodeId) (h : VoteInv cfg V n) (ha : Acts inp R n n') :
    ∃ V', VoteStep cfg V V' n n' := by
  induction ha with
  | refl => exact ⟨V, .refl V, h, rfl, [], by simp, by simp, fun _ => rfl⟩
  | tail _ hstep ih =>
    obtain ⟨V1, hx1, h1, hid1, os1, ho1, hf1, hv1⟩ := ih
    have hin1 : InpOk V1 inp _ := fun m hm => ⟨(hin m hm).1.mono hx1, (hin m hm).2.trans hid1.symm⟩
    obtain ⟨V2, hx2, h2, hid2, os2, ho2, hf2, hv2⟩ := act hin1 h1 hstep
    rw [hid1] at hx2 hf2
    refine ⟨V2, hx1.trans hx2, h2, hid2.trans hid1, os1 ++ os2, by simp [ho2, ho1], fun o ho => ?_, fun hno => ?_⟩
    · rcases List.mem_append.mp ho with ho | ho
      · exact ⟨(hf1 o ho).1.mono hx2, (hf1 o ho).2.mono hx2⟩
      · exact hf2 o ho
    · have hV2 := hv2 fun o ho => hno o (List.mem_append_right _ ho)
      exact hV2.trans (hv1 fun o ho => hno o (List.mem_append_left _ ho))

theorem boot {start timer rand : Int} {first : Bool} :
    VoteInv cfg (fun _ _ => none) (boot cfg i start timer rand first) :=
  ⟨by simp [L4.boot, Function.comp_def], rfl, rfl, fun _ _ => rfl, by simp [L4.boot], by simp [L4.boot]⟩

end VoteInv

/-- The votes as a ghost state of the runs of a group. -/
def voteGhost (cfg : Config) : Actors.Ghost (cluster cfg) (fun _ _ => True) Votes where
  glob _ := True
  node V i n := VoteInv cfg V n ∧ n.nodeId = i ∧ n.out = []
  out V i o := VoteOut V o ∧ WonOut cfg V i o
  ext i V V' := V.Ext i V'
  stable_node hx hj h := ⟨h.1.stable hx (h.2.1 ▸ hj), h.2⟩
  stable_out hx h := ⟨h.1.mono hx, h.2.mono hx⟩
  init s hs := by
    refine ⟨fun _ _ => none, trivial, fun i => ?_⟩
    obtain ⟨start, timer, rand, first, he⟩ := hs.1 i
    rw [he]
    exact ⟨.boot, rfl, rfl⟩
  step := by
    intro V s i a _ hn ho he _
    obtain ⟨hv, hid, hout⟩ := hn i
    have hin : VoteInv.InpOk V (EventOk s.trace i) (s.node i).nodeId := by
      rintro m ⟨hd, j, hj⟩
      exact ⟨(ho _ hj).1, hd.trans hid.symm⟩
    obtain ⟨V', hx, h', hid', os, hos, hf, -⟩ := hv.acts hin (Cluster.acts_of_enabled he (Cluster.risksOk_none he))
    rw [hid] at hx hf
    rw [hout, List.nil_append] at hos
    exact ⟨V', hx, trivial, ⟨h'.congr rfl, hid'.trans hid, rfl⟩, fun o hmem => hf o (hos ▸ hmem)⟩

/-- **Election safety.** Two different servers are never both leader in the
same term. -/
theorem election_safety (cfg : Config) {s : ClusterState} (h : (cluster cfg).lts.Reachable s) {i j : Nat}
    (hi : (s.node i).identity = .leader) (hj : (s.node j).identity = .leader)
    (ht : (s.node i).currentTerm = (s.node j).currentTerm) : i = j := by
  obtain ⟨V, hV⟩ := (voteGhost cfg).reachable (h.to_restrict fun _ _ => trivial)
  obtain ⟨hvi, hidi, -⟩ := hV.node i
  obtain ⟨hvj, hidj, -⟩ := hV.node j
  have h1 := hvi.leader hi
  have h2 := hvj.leader hj
  rw [hidi] at h1
  rw [hidj, ← ht] at h2
  exact h1.unique h2

open Cluster in
/-- In a group of three, server 0 wins term 1 with the vote of server 1, and
no other server leads in that term. -/
theorem election_safety_won :
    (((cluster trio).runTo (bootState trio) (winSteps 0 1 0 0 0 3000)).node 0).identity = .leader ∧
      (((cluster trio).runTo (bootState trio) (winSteps 0 1 0 0 0 3000)).node 0).currentTerm = 1 ∧
      ∀ j, (((cluster trio).runTo (bootState trio) (winSteps 0 1 0 0 0 3000)).node j).identity = .leader →
        (((cluster trio).runTo (bootState trio) (winSteps 0 1 0 0 0 3000)).node j).currentTerm = 1 → 0 = j := by
  have hlead : (((cluster trio).runTo (bootState trio) (winSteps 0 1 0 0 0 3000)).node 0).identity = .leader := by
    decide +kernel
  have hterm : (((cluster trio).runTo (bootState trio) (winSteps 0 1 0 0 0 3000)).node 0).currentTerm = 1 := by
    decide +kernel
  refine ⟨hlead, hterm, fun j hj ht => ?_⟩
  exact election_safety trio (reachable_run (winSteps 0 1 0 0 0 3000) (by decide +kernel)) hlead hj
    (hterm.trans ht.symm)

/-! ## Whole runs -/

/-- Server `i` has granted its vote for term `t` to `x`. -/
def Granted (s : ClusterState) (i t x : Nat) : Prop := ∃ j r, (j, Out.send (.requestVoteReply x r)) ∈ s.trace ∧
  r.nodeId = i ∧ r.term = t ∧ r.voteGranted = .granted ∧ r.prevote = false

/-- Server `i` has reported that it won term `t`. -/
def Elected (s : ClusterState) (t i : Nat) : Prop := ∃ osds newOsds, (i, Out.leaderElected t osds newOsds) ∈ s.trace

/-- **One winner of a term.** In a whole run a server grants its vote for a
term to one candidate at most, and a term is won by one server at most,
whether it is still the leader or not. -/
theorem elected_once (cfg : Config) {s : ClusterState} (h : (cluster cfg).lts.Reachable s) (t : Nat) :
    (∀ i x y, Granted s i t x → Granted s i t y → x = y) ∧ (∀ i j, Elected s t i → Elected s t j → i = j) ∧
      ∀ i j, (s.node i).identity = .leader → (s.node i).currentTerm = t → Elected s t j → i = j := by
  obtain ⟨V, hV⟩ := (voteGhost cfg).reachable (h.to_restrict fun _ _ => trivial)
  have hvote : ∀ {i x}, Granted s i t x → V i t = some x := by
    rintro i x ⟨j, r, hmem, rfl, rfl, hg, hp⟩
    exact (hV.out _ hmem).1 hg hp
  have hwon : ∀ {i}, Elected s t i → V.Won cfg t i := by
    rintro i ⟨osds, newOsds, hmem⟩
    exact (hV.out _ hmem).2
  refine ⟨fun i x y hx hy => ?_, fun i j hi hj => (hwon hi).unique (hwon hj), fun i j hi ht hj => ?_⟩
  · exact Option.some.inj ((hvote hx).symm.trans (hvote hy))
  · obtain ⟨hvi, hid, -⟩ := hV.node i
    have hlead := hvi.leader hi
    rw [hid, ht] at hlead
    exact hlead.unique (hwon hj)

open Cluster in
/-- Server 0 wins term 1 with the vote of server 1, and nobody else does. -/
theorem elected_once_won :
    let s := (cluster trio).runTo (bootState trio) (winSteps 0 1 0 0 0 3000)
    Granted s 1 1 0 ∧ Elected s 1 0 ∧ (∀ x, Granted s 1 1 x → 0 = x) ∧ ∀ j, Elected s 1 j → 0 = j := by
  intro s
  have hg : Granted s 1 1 0 := ⟨1, ⟨1, 1, .granted, false⟩, by decide +kernel, rfl, rfl, rfl, rfl⟩
  have he : Elected s 1 0 := ⟨[0, 1, 2], [], by decide +kernel⟩
  obtain ⟨hgrant, hone, -⟩ := elected_once trio (reachable_run (winSteps 0 1 0 0 0 3000) (by decide +kernel)) 1
  exact ⟨hg, he, fun x => hgrant 1 0 x hg, fun j => hone 0 j he⟩

end Fastblock.L4
