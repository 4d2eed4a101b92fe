import Fastblock.L3Raft.Cache
import Fastblock.L3Raft.Handlers
import Fastblock.L3Raft.Load

/-!
# What an act leaves alone

`completeCtxs_frame` says what completing contexts can change. Every act
outside an election keeps the term, the vote, the role and the vote flags,
and outputs nothing about votes (`Act.frame`); match indices are moved by
the events of `Moves` only (`Act.quiet`).
-/
namespace Fastblock.L3.Raft

/-- What elections read and write. -/
def Node.elect (n : Node) :
    Nat × Nat × Option Nat × Identity × Bool × List (Nat × Bool) × List (Nat × Bool) :=
  (n.nodeId, n.currentTerm, n.votedFor, n.identity, n.prevote,
    n.nodes.map fun p => (p.id, p.voteForMe), n.newNodes.map fun p => (p.id, p.voteForMe))

/-- Neither a vote request, nor a granted vote, nor a change of the term or
the vote. -/
def Out.VoteFree : Out → Prop
  | .send (.requestVote _ _) => False
  | .send (.requestVoteReply _ r) => r.voteGranted = .granted → r.prevote = true
  | .put (.voteFor _) => False
  | .put (.term _) => False
  | .leaderElected _ _ _ => False
  | _ => True

/-- The candidate a vote is for that leaves the server, to disk or in a
reply. -/
def Out.voteFor : Out → Option Nat
  | .put (.voteFor c) => some c
  | .send (.requestVoteReply c r) => if r.voteGranted = .granted ∧ r.prevote = false then some c else none
  | _ => none

theorem Out.Plain.voteFree {o : Out} (h : o.Plain) : o.VoteFree := by
  cases o with
  | send m => cases m <;> simp_all [Out.Plain, Out.VoteFree]
  | put kv => cases kv <;> simp_all [Out.Plain]
  | complete => trivial
  | apply => trivial
  | leaderElected => exact h

theorem Out.Answers.voteFree {inp : Event → Prop} {o : Out} (h : o.Answers inp) : o.VoteFree := by
  cases o with
  | send m => cases m <;> trivial
  | put kv => exact h.elim
  | complete => trivial
  | apply => trivial
  | leaderElected => exact h

/-- What elections and commits read of the members. -/
def Node.peers (n : Node) :
    Nat × Nat × Option Nat × Identity × Bool × List (Nat × Nat × Bool) × List (Nat × Nat × Bool) :=
  (n.nodeId, n.currentTerm, n.votedFor, n.identity, n.prevote, n.nodes.map RaftNode.key, n.newNodes.map RaftNode.key)

theorem Node.elect_congr {n n' : Node} (h : n'.peers = n.peers) : n'.elect = n.elect := by
  have hv : ∀ l : List RaftNode, l.map (fun p => (p.id, p.voteForMe)) =
      (l.map RaftNode.key).map fun k => (k.1, k.2.2) := by
    intro l
    simp [RaftNode.key]
  simp only [peers, Prod.mk.injEq] at h
  simp only [elect, hv, h]

/-- `n'` differs from `n` in nothing that elections read. -/
structure Mild (n n' : Node) : Prop where
  elect : n'.elect = n.elect
  out : ∃ os, n'.out = n.out ++ os ∧ ∀ o ∈ os, o.VoteFree

/-- The match indices are the same as well. -/
structure Quiet (n n' : Node) : Prop where
  peers : n'.peers = n.peers
  out : ∃ os, n'.out = n.out ++ os ∧ ∀ o ∈ os, o.VoteFree

theorem Quiet.mild {n n' : Node} (h : Quiet n n') : Mild n n' := ⟨Node.elect_congr h.peers, h.out⟩

theorem Quiet.refl (n : Node) : Quiet n n := ⟨rfl, [], by simp, by simp⟩

theorem Quiet.trans {a b c : Node} (h : Quiet a b) (h' : Quiet b c) : Quiet a c := by
  obtain ⟨os, ho, hf⟩ := h.out
  obtain ⟨os', ho', hf'⟩ := h'.out
  exact ⟨h'.peers.trans h.peers, os ++ os', by simp [ho', ho],
    fun o h => (List.mem_append.mp h).elim (hf o) (hf' o)⟩

theorem Quiet.of_eq {n n' : Node} (h : n'.peers = n.peers) (ho : n'.out = n.out) : Quiet n n' :=
  ⟨h, [], by simp [ho], by simp⟩

theorem Mild.of_eq {n n' : Node} (h : n'.elect = n.elect) (ho : n'.out = n.out) : Mild n n' :=
  ⟨h, [], by simp [ho], by simp⟩

theorem Quiet.left {a a' b : Node} (h : Quiet a' b) (he : a'.peers = a.peers) (ho : a'.out = a.out) :
    Quiet a b := (Quiet.of_eq he ho).trans h

theorem Quiet.right {a b b' : Node} (h : Quiet a b) (he : b'.peers = b.peers) (ho : b'.out = b.out) :
    Quiet a b' := h.trans (Quiet.of_eq he ho)

theorem Quiet.emit {n : Node} {os : List Out} (h : ∀ o ∈ os, o.VoteFree) : Quiet n (n.emit os) :=
  ⟨rfl, os, rfl, h⟩

namespace Node

variable {n : Node} {env : Env}

/-! ## Shapes -/

theorem maybeTrim_shape {nearUp : Nat} : ∃ d, n.maybeTrim nearUp = { n with log := { n.log with disk := d } } ∧
    ∀ e ∈ d.entries, e ∈ n.log.disk.entries := by
  rcases n.maybeTrim_cases nearUp with hsame | ⟨last, d, hd, -, htrim⟩
  · exact ⟨n.log.disk, hsame, fun _ he => he⟩
  · exact ⟨d, htrim, DiskLog.trimBack_subset hd⟩

/-! ## Completing contexts -/

/-- An output of completing `cs`: the result for a client, or the reply of
the call. -/
def CtxOut (n : Node) (res : Int) (cs : List Ctx) (o : Out) : Prop :=
  (∃ id, Ctx.client id ∈ cs ∧ o = .complete id res) ∨
    ∃ c, n.aeCall = some c ∧ Ctx.rpc ∈ cs ∧ o = .send (.appendEntriesReply c.src c.hb c.r)

/-- Completing contexts changes the call in progress and the outputs
only. -/
theorem completeCtxs_frame {res : Int} {cs : List Ctx} :
    ∃ a os, n.completeCtxs res cs = { n with aeCall := a, out := n.out ++ os } ∧
      (∀ o ∈ os, n.CtxOut res cs o) ∧ (a = n.aeCall ∨ a = none ∧ Ctx.rpc ∈ cs) := by
  induction cs generalizing n with
  | nil => exact ⟨n.aeCall, [], by simp [completeCtxs], by simp, .inl rfl⟩
  | cons c cs ih =>
    cases c with
    | client id =>
      obtain ⟨a, os, he, ho, ha⟩ := ih (n := n.emit [.complete id res])
      refine ⟨a, .complete id res :: os, ?_, ?_, ?_⟩
      · simp only [completeCtxs, List.foldl_cons, completeCtx] at he ⊢
        rw [he]
        simp [emit]
      · intro o h
        rcases List.mem_cons.mp h with rfl | h
        · exact .inl ⟨id, by simp, rfl⟩
        · rcases ho o h with ⟨id', hid, rfl⟩ | ⟨c, hc, hr, rfl⟩
          · exact .inl ⟨id', by simp [hid], rfl⟩
          · exact .inr ⟨c, hc, by simp [hr], rfl⟩
      · exact ha.imp (by simp [emit]) fun h => ⟨h.1, by simp [h.2]⟩
    | rpc =>
      obtain ⟨a, os, he, ho, ha⟩ := ih (n := n.finishAe)
      cases hc : n.aeCall with
      | none =>
        have hf : n.finishAe = n := by simp [finishAe, hc]
        rw [hf] at he ho ha
        refine ⟨a, os, ?_, fun o h => ?_, ha.imp (fun h => h.trans hc) fun h => ⟨h.1, by simp⟩⟩
        · simpa [completeCtxs, completeCtx, hf] using he
        · rcases ho o h with ⟨id', hid, rfl⟩ | ⟨c, hc', -, -⟩
          · exact .inl ⟨id', by simp [hid], rfl⟩
          · simp [hc] at hc'
      | some c =>
        have hf : n.finishAe =
            ({ n with aeCall := none } : Node).emit [.send (.appendEntriesReply c.src c.hb c.r)] := by
          simp [finishAe, hc]
        rw [hf] at he ho ha
        refine ⟨a, .send (.appendEntriesReply c.src c.hb c.r) :: os, ?_, fun o h => ?_, .inr ⟨?_, by simp⟩⟩
        · simp only [completeCtxs, List.foldl_cons, completeCtx, hf] at he ⊢
          rw [he]
          simp [emit]
        · rcases List.mem_cons.mp h with rfl | h
          · exact .inr ⟨c, hc, by simp, rfl⟩
          · rcases ho o h with ⟨id', hid, rfl⟩ | ⟨c', hc', -, -⟩
            · exact .inl ⟨id', by simp [hid], rfl⟩
            · simp [emit] at hc'
        · exact ha.elim id And.left

theorem CtxOut.voteFree {res : Int} {cs : List Ctx} {o : Out} (h : n.CtxOut res cs o) : o.VoteFree := by
  rcases h with ⟨id, -, rfl⟩ | ⟨c, -, -, rfl⟩ <;> trivial

theorem completeCtxs_quiet {res : Int} {cs : List Ctx} : Quiet n (n.completeCtxs res cs) := by
  obtain ⟨a, os, he, ho, -⟩ := @completeCtxs_frame n res cs
  rw [he]
  exact ⟨rfl, os, rfl, fun o h => (ho o h).voteFree⟩

theorem writeEntryFinish_quiet {first last : Nat} {res : Int} : Quiet n (n.writeEntryFinish first last res) :=
  completeCtxs_quiet.left rfl rfl

theorem finishAe_quiet : Quiet n n.finishAe := by
  unfold finishAe
  split
  · exact .refl n
  · exact (Quiet.emit (by simp [Out.VoteFree])).left rfl rfl

theorem logTruncate_quiet {idx : Nat} : Quiet n (n.logTruncate idx).2 := by
  have h1 : Quiet n (({ n with log := (n.log.truncateCache idx).2 } : Node).completeCtxs 0
      (n.log.truncateCache idx).1) :=
    completeCtxs_quiet.left rfl rfl
  unfold logTruncate
  dsimp only
  split
  · exact h1
  · exact h1.right rfl rfl

theorem appendEntryFunc_quiet {ae : AppendEntries} {i : Nat} : Quiet n (n.appendEntryFunc ae i) := by
  unfold appendEntryFunc
  dsimp only
  split
  · exact finishAe_quiet.left rfl rfl
  · exact Quiet.of_eq rfl rfl

theorem truncatePrevDone_quiet {ae : AppendEntries} {res : Int} : Quiet n (n.truncatePrevDone ae res) :=
  finishAe_quiet.left rfl rfl

theorem conflictPrev_quiet {ae : AppendEntries} : Quiet n (n.conflictPrev ae) := by
  have htruncate : Quiet n (n.logTruncate ae.prevLogIdx).2 := logTruncate_quiet
  unfold conflictPrev
  generalize n.logTruncate ae.prevLogIdx = t at htruncate ⊢
  dsimp only
  split
  · exact htruncate.right rfl rfl
  · exact htruncate.trans truncatePrevDone_quiet

theorem conflictEntry_quiet {ae : AppendEntries} {i : Nat} : Quiet n (n.conflictEntry ae i) := by
  have htruncate : Quiet n (n.logTruncate (ae.prevLogIdx + 1 + i)).2 := logTruncate_quiet
  unfold conflictEntry
  generalize n.logTruncate (ae.prevLogIdx + 1 + i) = t at htruncate ⊢
  dsimp only
  split
  · exact htruncate.right rfl rfl
  · exact htruncate.trans (appendEntryFunc_quiet.left rfl rfl)

theorem updNode_mild {i : Nat} {f : RaftNode → RaftNode}
    (hf : ∀ p, (f p).id = p.id ∧ (f p).voteForMe = p.voteForMe) : Mild n (n.updNode i f) := by
  refine Mild.of_eq ?_ rfl
  simp only [elect, updNode, mapNodes, List.map_map, Prod.mk.injEq, true_and]
  constructor <;> exact List.map_congr_left fun p _ => by
    dsimp only [Function.comp]; split
    · simp [hf p]
    · rfl

theorem nodeProcessCommit_mild {result : Int} {index node : Nat} :
    Mild n (n.nodeProcessCommit result index node) := by
  have hown : Mild n (n.ownMatch index node) := by
    unfold ownMatch
    split
    · exact updNode_mild fun _ => ⟨rfl, rfl⟩
    · exact .of_eq rfl rfl
  unfold nodeProcessCommit
  dsimp only
  split
  · exact ⟨hown.elect, hown.out⟩
  · exact hown

theorem updNode_quiet {i : Nat} {f : RaftNode → RaftNode} (hf : ∀ p, (f p).mark = p.mark) :
    Quiet n (n.updNode i f) := by
  have hs : Same n (n.updNode i f) := updNode_same hf
  refine Quiet.of_eq ?_ rfl
  simp only [peers, hs.nodeId, hs.currentTerm, hs.votedFor, hs.identity, hs.prevote, hs.nodes, hs.newNodes]

theorem sendRecoveryEntries_quiet {node : Nat} {es : List Entry} :
    Quiet n (n.sendRecoveryEntries env node es) := by
  unfold sendRecoveryEntries
  split
  · exact .refl n
  · refine ((updNode_quiet (f := (appendSent · env)) fun _ => rfl).trans (Quiet.emit ?_)).right rfl rfl
    unfold appendOut
    split <;> simp [Out.VoteFree]

theorem sendRecoveryEntries_commitIdx {node : Nat} {es : List Entry} :
    (n.sendRecoveryEntries env node es).commitIdx = n.commitIdx := by
  unfold sendRecoveryEntries
  split <;> rfl

/-- Recovery moves neither match indices nor the commit index. -/
theorem doRecovery_quiet {p : RaftNode} :
    Quiet n (n.doRecovery env p) ∧ (n.doRecovery env p).commitIdx = n.commitIdx := by
  rcases n.doRecovery_cases env p with hsnap | ⟨k, hsend⟩ | ⟨last, es, -, hread⟩
  · rw [hsnap]
    exact ⟨(updNode_quiet (f := fun p => { p with suppressHeartbeats := true }) fun _ => rfl).right rfl rfl, rfl⟩
  · rw [hsend]
    exact ⟨sendRecoveryEntries_quiet, sendRecoveryEntries_commitIdx⟩
  · rw [hread]
    exact ⟨.of_eq rfl rfl, rfl⟩

theorem dispatchRecovery_quiet {node : Nat} :
    Quiet n (n.dispatchRecovery env node) ∧ (n.dispatchRecovery env node).commitIdx = n.commitIdx := by
  have hset : ∀ b, Quiet n (n.updNode node fun p => { p with recovering := b }) := fun _ => updNode_quiet fun _ => rfl
  unfold dispatchRecovery
  split
  · exact ⟨.refl n, rfl⟩
  · dsimp only
    split
    · exact ⟨hset false, rfl⟩
    · split
      · exact ⟨hset false, rfl⟩
      · split
        · exact ⟨hset false, rfl⟩
        · exact ⟨(hset true).trans doRecovery_quiet.1, doRecovery_quiet.2⟩

theorem applyDone_quiet {idx : Nat} {res : Int} : Quiet n (n.applyDone idx res) := by
  unfold applyDone
  dsimp only
  split
  · have h : Quiet n (({ n with lastApplied := idx } : Node).writeEntryFinish idx idx 0) :=
      writeEntryFinish_quiet.left rfl rfl
    exact h.right rfl rfl
  · exact .of_eq rfl rfl

end Node

open Node

theorem Same.quiet {n n' : Node} (h : Same n n') : Quiet n n' := by
  refine Quiet.of_eq ?_ h.out
  simp only [peers, h.nodeId, h.currentTerm, h.votedFor, h.identity, h.prevote, h.nodes, h.newNodes]

/-- The outputs of an election: no client is answered, no append_entries
call and no applied index is saved. -/
def Out.Electing : Out → Prop
  | .complete _ _ => False
  | .send (.appendEntriesReply _ _ _) => False
  | .send (.snapshotCheckReply _ _) => False
  | .send (.installSnapshotReply _ _) => False
  | .put (.lapplyIdx _) => False
  | _ => True

theorem ElectAct.kept {inp : Event → Prop} {R : Risks} {n n' : Node} (h : ElectAct inp R n n') :
    Kept n n' ∧ (n'.commitIdx = n.commitIdx ∨ R.lead n ∧ n'.commitIdx = n.currentIdx) ∧
      ∃ os, n'.out = n.out ++ os ∧ ∀ o ∈ os, o.Electing := by
  cases h with
  | setTerm hlt hf =>
    rw [setCurrentTerm, if_pos hlt]
    exact ⟨by constructor <;> rfl, .inl rfl, _, rfl, by simp [Out.Electing]⟩
  | follower => exact ⟨by constructor <;> rfl, .inl rfl, [], by simp, by simp⟩
  | candidate => exact ⟨by constructor <;> rfl, .inl rfl, [], by simp [resetVotes, mapNodes], by simp⟩
  | prevoted hc hp hm =>
    rw [setCurrentTerm, if_pos (Nat.lt_succ_self _)]
    refine ⟨by constructor <;> rfl, .inl rfl, [.put (.term (n.currentTerm + 1)), .put (.voteFor n.nodeId)], ?_,
      by simp [Out.Electing]⟩
    simp [voteForNodeid, resetVotes, mapNodes]
  | sendVotes hc =>
    refine ⟨by constructor <;> rfl, .inl rfl, _, rfl, fun o ho => ?_⟩
    obtain ⟨p, -, rfl⟩ := List.mem_map.mp ho
    trivial
  | lead hc hp hm hR =>
    refine ⟨by constructor <;> rfl, .inr ⟨hR, rfl⟩, _, List.append_assoc _ _ _, fun o ho => ?_⟩
    rcases List.mem_append.mp ho with ho | ho
    · obtain ⟨p, -, hp⟩ := List.mem_flatMap.mp ho
      unfold appendOut at hp
      split at hp
      · rw [List.mem_singleton.mp hp]
        trivial
      · cases hp
    · rw [List.mem_singleton.mp ho]
      trivial
  | grant hi hl ht hp hg =>
    exact ⟨by constructor <;> rfl, .inl rfl, _, List.append_assoc _ _ _, by simp [Out.Electing]⟩
  | voteFlag hi hc hp ht hg => exact ⟨by constructor <;> rfl, .inl rfl, [], by simp [updNode, mapNodes], by simp⟩

/-- The events that move match indices: replies of peers, and the leader's
own disk append. -/
def Moves (inp : Event → Prop) : Prop :=
  (∃ dst hb r, inp (.recv (.appendEntriesReply dst hb r))) ∨ (∃ dst r, inp (.recv (.installSnapshotReply dst r))) ∨
    ∃ first last es res io, inp (.finish (.diskAppend first last es) res io)

/-- **Only the acts of an election touch votes**, and only replies and disk
appends match indices. -/
theorem Act.quiet {inp : Event → Prop} {R : Risks} {n n' : Node} (h : Act inp R n n') :
    ElectAct inp R n n' ∨ Quiet n n' ∨ Moves inp ∧ Mild n n' := by
  cases h with
  | elect h => exact .inl h
  | misc h => exact .inr (.inl h.quiet)
  | emit h => exact .inr (.inl (.emit (by simpa using h.voteFree)))
  | answer h => exact .inr (.inl (.emit (by simpa using h.voteFree)))
  | saveApplied => exact .inr (.inl (.emit (by simp [Out.VoteFree])))
  | sendInstall => exact .inr (.inl (.emit (by simp [Out.VoteFree])))
  | sendAe => exact .inr (.inl (.emit (by simp [Out.VoteFree])))
  | sendRead => exact .inr (.inl (sendRecoveryEntries_quiet.left rfl rfl))
  | append => exact .inr (.inl (appendEntryFunc_quiet.left rfl rfl))
  | conflictPrev => exact .inr (.inl (conflictPrev_quiet.left rfl rfl))
  | conflictEntry => exact .inr (.inl (conflictEntry_quiet.left rfl rfl))
  | truncatePrevDone => exact .inr (.inl (truncatePrevDone_quiet.left rfl rfl))
  | truncateEntryDone => exact .inr (.inl (appendEntryFunc_quiet.left rfl rfl))
  | followDone =>
    refine .inr (.inl (writeEntryFinish_quiet.left ?_ ?_)) <;> split <;> rfl
  | enqueue => exact .inr (.inl (.of_eq rfl rfl))
  | flushQueue => exact .inr (.inl (.of_eq rfl rfl))
  | flush => exact .inr (.inl (.of_eq rfl rfl))
  | batch => exact .inr (.inl (.of_eq rfl rfl))
  | diskDone hi =>
    obtain ⟨io, hi⟩ := hi
    refine .inr (.inr ⟨.inr (.inr ⟨_, _, _, _, io, hi⟩), ?_⟩)
    unfold diskAppendDone
    dsimp only
    split
    · exact ⟨nodeProcessCommit_mild.elect, nodeProcessCommit_mild.out⟩
    · exact ⟨nodeProcessCommit_mild.elect, nodeProcessCommit_mild.out⟩
  | commit hi =>
    obtain ⟨dst, hb, r, hi, -⟩ := hi
    exact .inr (.inr ⟨.inl ⟨dst, hb, r, hi⟩, nodeProcessCommit_mild⟩)
  | replyPeer hi =>
    refine .inr (.inr ⟨.inl ⟨_, _, _, hi⟩, ?_⟩)
    exact updNode_mild fun p => ⟨replyDecide_spec.id, replyDecide_spec.voteForMe⟩
  | snapMatch hi hl ht hs hf =>
    refine .inr (.inr ⟨.inr (.inl ⟨_, _, hi⟩), updNode_mild fun p => ?_⟩)
    have := hf p
    simp only [RaftNode.mark, RaftNode.key, Prod.mk.injEq] at this
    exact ⟨this.1.1, this.1.2.2⟩
  | addRead => exact .inr (.inl (.of_eq rfl rfl))
  | applyStart => exact .inr (.inl ((Quiet.emit (by simp [Out.VoteFree])).left rfl rfl))
  | applyRead => exact .inr (.inl (.of_eq rfl rfl))
  | applyReadDone => exact .inr (.inl ((Quiet.emit (by simp [Out.VoteFree])).left rfl rfl))
  | applyDone => exact .inr (.inl (applyDone_quiet.left rfl rfl))
  | applyReadFailed => exact .inr (.inl (.of_eq rfl rfl))
  | trim =>
    refine .inr (.inl ?_)
    obtain ⟨d, htrim, -⟩ := n.maybeTrim_shape
    rw [htrim]
    exact .of_eq rfl rfl
  | addWork => exact .inr (.inl (.of_eq rfl rfl))
  | dropWork => exact .inr (.inl (.of_eq rfl rfl))
  | snapIdx => exact .inr (.inl (.of_eq rfl rfl))
  | addCheck => exact .inr (.inl (.of_eq rfl rfl))
  | addInstall => exact .inr (.inl (.of_eq rfl rfl))
  | dropDisk => exact .inr (.inl (.of_eq rfl rfl))
  | install => exact .inr (.inl ((Quiet.emit (by simp [Out.VoteFree])).left rfl rfl))
  | stopState => exact .inr (.inl (.of_eq rfl rfl))
  | finishErr => exact .inr (.inl writeEntryFinish_quiet)
  | removeCache => exact .inr (.inl (.of_eq rfl rfl))
  | clearQueue => exact .inr (.inl (completeCtxs_quiet.left rfl rfl))

theorem Act.frame {inp : Event → Prop} {R : Risks} {n n' : Node} (h : Act inp R n n') :
    ElectAct inp R n n' ∨ Mild n n' :=
  h.quiet.imp_right fun h => h.elim Quiet.mild And.right

end Fastblock.L3.Raft
