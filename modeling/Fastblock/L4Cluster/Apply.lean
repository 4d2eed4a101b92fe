import Fastblock.L4Cluster.Cluster

/-!
# Applying committed entries

The state machine of a server applies the committed entries one at a time
(src/raft/state_machine.cc:33-96): a poll starts the entry after
`_last_applied_idx`, and its completion writes that index back. An
`Applier` is a server, among peers that may send anything, with what was
applied and which snapshots were installed.

Entries are not applied in order once a snapshot is installed while an
entry is being applied: the completion sets `_last_applied_idx` back
(`apply_goes_back`). `apply_in_order` is the property for the runs in
which
* a snapshot comes in between two entries and is not older than what was
  applied;
* winning an election does not move the commit index below what was
  applied;
* the membership does not change: `handle` is the server between two
  changes, and neither clients nor peers send it entries of a change.
  While the configuration is joint any reply sets the commit index
  (configuration_manager.cc:174-213), also back.
-/
namespace Fastblock.L4

open Fastblock.Core Fastblock.L3.Raft

/-! ## What was applied -/

inductive ApplyItem where
  /-- the entry at `idx` was applied, with the commit index at that time -/
  | applied (idx commit : Nat)
  /-- a snapshot up to `idx` was installed -/
  | installed (idx : Nat)
  deriving DecidableEq, Repr

/-- The index of the snapshot that the event installs:
`set_index_after_snapshot`, raft.h:807-812, is called at once or after the
disk log was emptied. -/
def installIdx (n : Node) : Event → Option Nat
  | .recv (.installSnapshot _ m) =>
    if n.opState = .active ∧ n.currentTerm ≤ m.term ∧ m.done = true ∧ m.objects = [] ∧ n.NoTrim then some m.lastIdx
    else none
  | .finish (.snapWrite src done i r) _ _ =>
    if .snapWrite src done i r ∈ n.pending ∧ done = true ∧ n.NoTrim then some i else none
  | .finish (.snapSetIndex src i r) _ _ => if .snapSetIndex src i r ∈ n.pending then some i else none
  | _ => none

def applyItems (n : Node) (ev : Event) : List ApplyItem :=
  match ev with
  | .finish (.applying idx) res _ =>
    if .applying idx ∈ n.pending ∧ res = 0 then [.applied idx n.commitIdx] else []
  | ev => ((installIdx n ev).map ApplyItem.installed).toList

/-- From `l`, the entries were applied one after the other and not before
they were committed, and snapshots led forward only; `k` is the last index
applied. -/
inductive InOrder (l : Nat) : List ApplyItem → Nat → Prop where
  | nil : InOrder l [] l
  | applied {items : List ApplyItem} {k commit : Nat} (h : InOrder l items k) (hc : k + 1 ≤ commit) :
      InOrder l (items ++ [.applied (k + 1) commit]) (k + 1)
  | installed {items : List ApplyItem} {k i : Nat} (h : InOrder l items k) (hi : k ≤ i) :
      InOrder l (items ++ [.installed i]) i

def appliedIdxs (items : List ApplyItem) : List Nat :=
  items.filterMap fun
    | .applied idx _ => some idx
    | .installed _ => none

/-- What was applied is increasing. -/
theorem InOrder.increasing {l k : Nat} {items : List ApplyItem} (h : InOrder l items k) :
    (appliedIdxs items).Pairwise (· < ·) ∧ ∀ i ∈ appliedIdxs items, i ≤ k := by
  induction h with
  | nil => simp [appliedIdxs]
  | @applied items k commit h hc ih =>
    have he : appliedIdxs (items ++ [.applied (k + 1) commit]) = appliedIdxs items ++ [k + 1] := by simp [appliedIdxs]
    rw [he, List.pairwise_append]
    refine ⟨⟨ih.1, by simp, fun a ha b hb => ?_⟩, fun i hi => ?_⟩
    · rw [List.mem_singleton.mp hb]
      exact Nat.lt_succ_of_le (ih.2 a ha)
    · rcases List.mem_append.mp hi with hi | hi
      · exact Nat.le_succ_of_le (ih.2 i hi)
      · exact Nat.le_of_eq (List.mem_singleton.mp hi)
  | @installed items k i h hi ih =>
    have he : appliedIdxs (items ++ [.installed i]) = appliedIdxs items := by simp [appliedIdxs]
    rw [he]
    exact ⟨ih.1, fun j hj => Nat.le_trans (ih.2 j hj) hi⟩

/-! ## The system -/

structure Applier where
  node : Node
  items : List ApplyItem

def Applier.next (md5 : Bytes → Bytes) (s : Applier) (l : Input) : Applier :=
  ⟨s.node.handle md5 l.env l.ev, s.items ++ applyItems s.node l.ev⟩

/-- A server that applies nothing when the run starts, and that has applied
nothing beyond its commit index. -/
def applier (md5 : Bytes → Bytes) : Lts Applier Input where
  init s := s.items = [] ∧ s.node.applyInProgress = false ∧ (∀ p ∈ s.node.pending, p.isApply = false) ∧
    s.node.lastApplied ≤ s.node.commitIdx
  step s l s' := AnyEvent l.ev ∧ s' = s.next md5 l

/-- The last index applied or being applied. -/
def applyTop (n : Node) : Nat := if n.applyInProgress then n.lastApplied + 1 else n.lastApplied

/-- If counting the votes now makes a leader, its log reaches as far as it
has applied: the commit index becomes the end of the log. -/
def WinKeeps (n : Node) : Prop := n.countWins = true → applyTop n ≤ n.currentIdx

/-- A snapshot is installed between two entries and is not older than what
was applied; a server that wins an election has not lost what it applied;
no entry changes the membership. -/
def ApplySafe (s : Applier) (l : Input) : Prop :=
  (∀ i, installIdx s.node l.ev = some i → s.node.applyInProgress = false ∧ s.node.lastApplied ≤ i) ∧
  match l.ev with
  | .recv (.appendEntries _ _ ae) => ∀ e ∈ ae.entries, e.isCfgChange = false
  | .recv (.requestVoteReply _ r) =>
    s.node.isCandidate = true → s.node.prevote = r.prevote → s.node.currentTerm = r.term →
      r.voteGranted = .granted → WinKeeps (s.node.withVote r.nodeId)
  | .timeoutNow => s.node.opState = .active → WinKeeps (s.node.setCurrentTerm (s.node.currentTerm + 1)).asCandidate
  | .periodic => s.node.startsElection l.env = true → WinKeeps s.node.asCandidate
  | _ => True

/-! ## The invariant -/

/-- At most one entry is being applied: the one after the last, and it is
committed. -/
structure ApplyInv (n : Node) : Prop where
  applied : n.lastApplied ≤ n.commitIdx
  top : applyTop n ≤ n.commitIdx
  one : n.pending.countP Pending.isApply ≤ if n.applyInProgress then 1 else 0
  reads : ∀ idx e, .applyRead idx e ∈ n.pending → idx = n.lastApplied + 1
  works : ∀ idx, .applying idx ∈ n.pending → idx = n.lastApplied + 1

/-- The work of applying in `ps'` was there in `ps`. -/
def ApplyWorkLe (ps ps' : List Pending) : Prop :=
  (∀ p ∈ ps', p.isApply = true → p ∈ ps) ∧ ps'.countP Pending.isApply ≤ ps.countP Pending.isApply

/-- What is applied stays as it is, and the commit index does not go
back. -/
structure ApplyKept (n n' : Node) : Prop where
  lastApplied : n'.lastApplied = n.lastApplied
  applyInProgress : n'.applyInProgress = n.applyInProgress
  commitIdx : n.commitIdx ≤ n'.commitIdx
  pending : ApplyWorkLe n.pending n'.pending

theorem ApplyInv.kept {n n' : Node} (h : ApplyInv n) (hk : ApplyKept n n') : ApplyInv n' := by
  have htop : applyTop n' = applyTop n := by rw [applyTop, applyTop, hk.lastApplied, hk.applyInProgress]
  refine ⟨?_, ?_, ?_, fun idx e hp => ?_, fun idx hp => ?_⟩
  · rw [hk.lastApplied]
    exact Nat.le_trans h.applied hk.commitIdx
  · rw [htop]
    exact Nat.le_trans h.top hk.commitIdx
  · rw [hk.applyInProgress]
    exact Nat.le_trans hk.pending.2 h.one
  · rw [hk.lastApplied]
    exact h.reads idx e (hk.pending.1 _ hp rfl)
  · rw [hk.lastApplied]
    exact h.works idx (hk.pending.1 _ hp rfl)

namespace ApplyWorkLe

variable {ps : List Pending} {p : Pending}

theorem refl (ps : List Pending) : ApplyWorkLe ps ps := ⟨fun _ h _ => h, Nat.le_refl _⟩

theorem snoc (h : p.isApply = false) : ApplyWorkLe ps (ps ++ [p]) := by
  refine ⟨fun q hq ha => ?_, by simp [h]⟩
  rcases List.mem_append.mp hq with hq | hq
  · exact hq
  · rw [List.mem_singleton.mp hq, h] at ha
    cases ha

theorem erase : ApplyWorkLe ps (ps.erase p) :=
  ⟨fun _ hq _ => List.mem_of_mem_erase hq, List.Sublist.countP_le List.erase_sublist⟩

theorem trans {ps' ps'' : List Pending} (h : ApplyWorkLe ps ps') (h' : ApplyWorkLe ps' ps'') : ApplyWorkLe ps ps'' :=
  ⟨fun q hq ha => h.1 q (h'.1 q hq ha) ha, Nat.le_trans h'.2 h.2⟩

end ApplyWorkLe

namespace ApplyKept

variable {n n' n'' : Node} {env : Env}

theorem refl (n : Node) : ApplyKept n n := ⟨rfl, rfl, Nat.le_refl _, .refl _⟩

theorem trans (h : ApplyKept n n') (h' : ApplyKept n' n'') : ApplyKept n n'' :=
  ⟨h'.lastApplied.trans h.lastApplied, h'.applyInProgress.trans h.applyInProgress,
    Nat.le_trans h.commitIdx h'.commitIdx, h.pending.trans h'.pending⟩

theorem of_eq (h1 : n'.lastApplied = n.lastApplied) (h2 : n'.applyInProgress = n.applyInProgress)
    (h3 : n'.commitIdx = n.commitIdx) (h4 : n'.pending = n.pending) : ApplyKept n n' :=
  ⟨h1, h2, Nat.le_of_eq h3.symm, h4 ▸ .refl _⟩

/-- `n` agrees with a state from which the step is known. -/
theorem left (h : ApplyKept n' n'') (h1 : n'.lastApplied = n.lastApplied) (h2 : n'.applyInProgress = n.applyInProgress)
    (h3 : n.commitIdx ≤ n'.commitIdx) (h4 : ApplyWorkLe n.pending n'.pending) : ApplyKept n n'' :=
  ApplyKept.trans ⟨h1, h2, h3, h4⟩ h

theorem drop {p : Pending} : ApplyKept n { n with pending := n.pending.erase p } :=
  ⟨rfl, rfl, Nat.le_refl _, .erase⟩

theorem add {p : Pending} (h : p.isApply = false) : ApplyKept n { n with pending := n.pending ++ [p] } :=
  ⟨rfl, rfl, Nat.le_refl _, .snoc h⟩

theorem completeCtxs {res : Int} {cs : List Ctx} : ApplyKept n (n.completeCtxs res cs) := by
  obtain ⟨a, os, he, -, -⟩ := @Node.completeCtxs_frame n res cs
  rw [he]
  exact of_eq rfl rfl rfl rfl

theorem writeEntryFinish {first last : Nat} {res : Int} : ApplyKept n (n.writeEntryFinish first last res) :=
  completeCtxs.left rfl rfl (Nat.le_refl _) (.refl _)

theorem finishAe : ApplyKept n n.finishAe := by
  unfold Node.finishAe
  split <;> exact of_eq rfl rfl rfl rfl

theorem logTruncate {idx : Nat} : ApplyKept n (n.logTruncate idx).2 := by
  have h : ApplyKept n (({ n with log := (n.log.truncateCache idx).2 } : Node).completeCtxs 0
      (n.log.truncateCache idx).1) := completeCtxs.left rfl rfl (Nat.le_refl _) (.refl _)
  unfold Node.logTruncate
  dsimp only
  split
  · exact h
  · exact h.trans (of_eq rfl rfl rfl rfl)

theorem appendEntryFunc {ae : AppendEntries} {i : Nat} : ApplyKept n (n.appendEntryFunc ae i) := by
  unfold Node.appendEntryFunc
  dsimp only
  split
  · refine finishAe.left rfl rfl ?_ (.refl _)
    dsimp only [Node.setReply]
    split_ifs <;> omega
  · exact ⟨rfl, rfl, Nat.le_refl _, .snoc rfl⟩

theorem truncatePrevDone {ae : AppendEntries} {res : Int} : ApplyKept n (n.truncatePrevDone ae res) :=
  finishAe.left rfl rfl (Nat.le_refl _) (.refl _)

theorem truncateEntryDone {ae : AppendEntries} {i : Nat} : ApplyKept n (n.truncateEntryDone ae i) :=
  appendEntryFunc.left rfl rfl (Nat.le_refl _) (.refl _)

theorem conflictPrev {ae : AppendEntries} : ApplyKept n (n.conflictPrev ae) := by
  unfold Node.conflictPrev
  dsimp only
  split
  · exact logTruncate.trans (add rfl)
  · exact logTruncate.trans truncatePrevDone

theorem conflictEntry {ae : AppendEntries} {i : Nat} : ApplyKept n (n.conflictEntry ae i) := by
  unfold Node.conflictEntry
  dsimp only
  split
  · exact logTruncate.trans (add rfl)
  · exact logTruncate.trans truncateEntryDone

theorem followAppendDone {first last commit : Nat} {es : List Entry} {res : Int} :
    ApplyKept n (n.followAppendDone first last commit es res) := by
  unfold Node.followAppendDone
  dsimp only
  have hcommit : ∀ m : Node, m.commitIdx ≤ if m.commitIdx < commit then commit else m.commitIdx := fun m => by
    split <;> omega
  split
  · exact writeEntryFinish.left rfl rfl (hcommit n) (.refl _)
  · exact writeEntryFinish.left rfl rfl (hcommit n) (.refl _)

theorem sendRecoveryEntries {node : Nat} {es : List Entry} : ApplyKept n (n.sendRecoveryEntries env node es) := by
  unfold Node.sendRecoveryEntries
  split <;> exact of_eq rfl rfl rfl rfl

theorem nodeProcessCommit {result : Int} {index node : Nat} : ApplyKept n (n.nodeProcessCommit result index node) := by
  have hown : ApplyKept n (n.ownMatch index node) := by
    unfold Node.ownMatch
    split <;> exact of_eq rfl rfl rfl rfl
  unfold Node.nodeProcessCommit
  dsimp only
  split
  · next h =>
    refine hown.trans ⟨rfl, rfl, ?_, .refl _⟩
    simp only [Bool.and_eq_true, decide_eq_true_eq] at h
    exact Nat.le_of_lt h.1.1.1
  · exact hown

theorem diskAppendDone {last : Nat} {es : List Entry} {res : Int} : ApplyKept n (n.diskAppendDone last es res) := by
  unfold Node.diskAppendDone
  dsimp only
  split
  · exact nodeProcessCommit.left rfl rfl (Nat.le_refl _) (.refl _)
  · exact nodeProcessCommit

theorem maybeTrim {nearUp : Nat} : ApplyKept n (n.maybeTrim nearUp) := by
  rcases n.maybeTrim_cases nearUp with hsame | ⟨last, d, -, -, htrim⟩
  · rw [hsame]
    exact refl n
  · rw [htrim]
    exact of_eq rfl rfl rfl rfl

end ApplyKept

theorem not_apply_of_plain {p : Pending} (h : p.Plain) : p.isApply = false := by
  cases p <;> first | rfl | exact h.elim

/-! ## The trim mark -/

section

variable {n : Node}

/-- `_trim_index` of the disk log -/
def trimMark (n : Node) : Nat := n.log.disk.trimIndex

theorem trimIndex_indexAll (d : DiskLog) (es : List Entry) : (d.indexAll es).trimIndex = d.trimIndex := by
  induction es generalizing d with
  | nil => rfl
  | cons e es ih => exact ih _

theorem trimIndex_append (d : DiskLog) (es : List Entry) : (d.append es).trimIndex = d.trimIndex := by
  unfold DiskLog.append
  dsimp only
  split <;> exact trimIndex_indexAll d _

theorem trimIndex_trimBack {d d' : DiskLog} {first last : Nat} (h : d.trimBack first last = some d') :
    d'.trimIndex = d.trimIndex := by
  unfold DiskLog.trimBack at h
  split at h
  · cases h
  · split at h
    · cases h
      rfl
    · cases h

theorem trimMark_completeCtxs {res : Int} {cs : List Ctx} : trimMark (n.completeCtxs res cs) = trimMark n := by
  obtain ⟨a, os, he, -, -⟩ := @Node.completeCtxs_frame n res cs
  rw [he]
  rfl

theorem trimMark_writeEntryFinish {first last : Nat} {res : Int} :
    trimMark (n.writeEntryFinish first last res) = trimMark n := trimMark_completeCtxs

theorem trimMark_finishAe : trimMark n.finishAe = trimMark n := by
  unfold Node.finishAe
  split <;> rfl

theorem trimMark_logTruncate {idx : Nat} : trimMark (n.logTruncate idx).2 = trimMark n := by
  have h : trimMark (({ n with log := (n.log.truncateCache idx).2 } : Node).completeCtxs 0
        (n.log.truncateCache idx).1) =
      trimMark n := trimMark_completeCtxs
  unfold Node.logTruncate
  dsimp only
  split
  · exact h
  · next hd =>
    refine Eq.trans ?_ h
    unfold DiskLog.truncate at hd
    split at hd
    · cases hd
      rfl
    · cases hd

theorem trimIndex_logAppend (lg : RaftLog) (es : List (Entry × Option Ctx)) :
    (lg.logAppend es).disk.trimIndex = lg.disk.trimIndex := by
  unfold RaftLog.logAppend
  induction es generalizing lg with
  | nil => rfl
  | cons e es ih => exact ih _

theorem trimMark_appendEntryFunc {ae : AppendEntries} {i : Nat} : trimMark (n.appendEntryFunc ae i) = trimMark n := by
  unfold Node.appendEntryFunc
  dsimp only
  split
  · exact trimMark_finishAe.trans (trimIndex_logAppend _ _)
  · exact trimIndex_logAppend _ _

theorem trimMark_conflictPrev {ae : AppendEntries} : trimMark (n.conflictPrev ae) = trimMark n := by
  have htruncate : trimMark (n.logTruncate ae.prevLogIdx).2 = trimMark n := trimMark_logTruncate
  unfold Node.conflictPrev
  generalize n.logTruncate ae.prevLogIdx = t at htruncate ⊢
  dsimp only
  split
  · exact htruncate
  · exact Eq.trans trimMark_finishAe htruncate

theorem trimMark_conflictEntry {ae : AppendEntries} {i : Nat} : trimMark (n.conflictEntry ae i) = trimMark n := by
  have htruncate : trimMark (n.logTruncate (ae.prevLogIdx + 1 + i)).2 = trimMark n := trimMark_logTruncate
  unfold Node.conflictEntry
  generalize n.logTruncate (ae.prevLogIdx + 1 + i) = t at htruncate ⊢
  dsimp only
  split
  · exact htruncate
  · exact Eq.trans trimMark_appendEntryFunc htruncate

theorem trimMark_followAppendDone {first last commit : Nat} {es : List Entry} {res : Int} :
    trimMark (n.followAppendDone first last commit es res) = trimMark n := by
  unfold Node.followAppendDone
  dsimp only
  refine trimMark_writeEntryFinish.trans ?_
  split
  · exact trimIndex_append _ _
  · rfl

theorem trimMark_nodeProcessCommit {result : Int} {index node : Nat} :
    trimMark (n.nodeProcessCommit result index node) = trimMark n := by
  have hown : trimMark (n.ownMatch index node) = trimMark n := by
    unfold Node.ownMatch
    split <;> rfl
  unfold Node.nodeProcessCommit
  dsimp only
  split <;> exact hown

theorem trimMark_diskAppendDone {last : Nat} {es : List Entry} {res : Int} :
    trimMark (n.diskAppendDone last es res) = trimMark n := by
  unfold Node.diskAppendDone
  dsimp only
  split
  · exact trimMark_nodeProcessCommit.trans (trimIndex_append _ _)
  · exact trimMark_nodeProcessCommit

theorem trimMark_maybeTrim {nearUp : Nat} : trimMark (n.maybeTrim nearUp) = trimMark n := by
  rcases n.maybeTrim_cases nearUp with hsame | ⟨last, d, hd, -, htrim⟩
  · rw [hsame]
  · rw [htrim]
    exact trimIndex_trimBack hd

end

/-! ## Acts -/

/-- An act as far as it is about applying. -/
inductive ApplyAct (inp : Event → Prop) (R : Risks) (n : Node) : Node → Prop where
  | elect {n'} (h : ElectAct inp R n n') : ApplyAct inp R n n'
  | kept {n'} (h : ApplyKept n n') (ht : trimMark n' = trimMark n) : ApplyAct inp R n n'
  /-- the next entry is read, or handed to the state machine -/
  | start {n' p} (hc : n.lastApplied ≠ n.commitIdx) (ha : n.applyInProgress = false)
      (hp : p = .applying (n.lastApplied + 1) ∨ ∃ e, p = .applyRead (n.lastApplied + 1) e)
      (h : n' = { n with applyInProgress := true, pending := n.pending ++ [p], out := n'.out }) : ApplyAct inp R n n'
  /-- the entry that was read is handed over -/
  | readDone {n' idx e} (h : .applyRead idx (some e) ∈ n.pending)
      (h' : n' = { n with pending := n.pending.erase (.applyRead idx (some e)) ++ [.applying idx], out := n'.out }) :
      ApplyAct inp R n n'
  | readFailed {idx e} (h : .applyRead idx e ∈ n.pending) :
      ApplyAct inp R n { n with pending := n.pending.erase (.applyRead idx e), applyInProgress := false }
  | done {idx res} (hi : ∃ io, inp (.finish (.applying idx) res io)) (h : .applying idx ∈ n.pending) :
      ApplyAct inp R n (({ n with pending := n.pending.erase (.applying idx) } : Node).applyDone idx res)
  | install {src i r} (hi : EndsInstall inp i) : ApplyAct inp R n (n.snapSetIndexDone src i r)

theorem applyAct {inp : Event → Prop} {R : Risks} {n n' : Node} (ha : Act inp R n n') : ApplyAct inp R n n' := by
  cases ha with
  | elect ha => exact .elect ha
  | misc hs =>
    exact .kept (.of_eq hs.lastApplied hs.applyInProgress hs.commitIdx hs.pending) (by rw [trimMark, hs.log]; rfl)
  | emit => exact .kept (.of_eq rfl rfl rfl rfl) rfl
  | answer => exact .kept (.of_eq rfl rfl rfl rfl) rfl
  | saveApplied => exact .kept (.of_eq rfl rfl rfl rfl) rfl
  | sendInstall => exact .kept (.of_eq rfl rfl rfl rfl) rfl
  | sendAe => exact .kept (.of_eq rfl rfl rfl rfl) rfl
  | sendRead =>
    refine .kept (ApplyKept.sendRecoveryEntries.left rfl rfl (Nat.le_refl _) .erase) ?_
    unfold Node.sendRecoveryEntries
    split <;> rfl
  | append => exact .kept (ApplyKept.appendEntryFunc.left rfl rfl (Nat.le_refl _) (.refl _)) trimMark_appendEntryFunc
  | conflictPrev => exact .kept (ApplyKept.conflictPrev.left rfl rfl (Nat.le_refl _) (.refl _)) trimMark_conflictPrev
  | conflictEntry =>
    exact .kept (ApplyKept.conflictEntry.left rfl rfl (Nat.le_refl _) (.refl _)) trimMark_conflictEntry
  | truncatePrevDone => exact .kept (ApplyKept.truncatePrevDone.left rfl rfl (Nat.le_refl _) .erase) trimMark_finishAe
  | truncateEntryDone =>
    exact .kept (ApplyKept.truncateEntryDone.left rfl rfl (Nat.le_refl _) .erase) trimMark_appendEntryFunc
  | followDone =>
    exact .kept (ApplyKept.followAppendDone.left rfl rfl (Nat.le_refl _) .erase) trimMark_followAppendDone
  | enqueue => exact .kept (.of_eq rfl rfl rfl rfl) rfl
  | flushQueue => exact .kept (.of_eq rfl rfl rfl rfl) (trimIndex_logAppend _ _)
  | flush => exact .kept ⟨rfl, rfl, Nat.le_refl _, .snoc rfl⟩ (trimIndex_logAppend _ _)
  | batch => exact .kept ⟨rfl, rfl, Nat.le_refl _, .snoc rfl⟩ rfl
  | diskDone => exact .kept (ApplyKept.diskAppendDone.left rfl rfl (Nat.le_refl _) .erase) trimMark_diskAppendDone
  | commit => exact .kept .nodeProcessCommit trimMark_nodeProcessCommit
  | replyPeer => exact .kept (.of_eq rfl rfl rfl rfl) rfl
  | snapMatch => exact .kept (.of_eq rfl rfl rfl rfl) rfl
  | addRead => exact .kept (.add rfl) rfl
  | applyStart hc hp he => exact .start hc hp (.inl rfl) rfl
  | applyRead hc hp he hd => exact .start hc hp (.inr ⟨_, rfl⟩) rfl
  | applyReadDone hp => exact .readDone hp rfl
  | applyReadFailed hp => exact .readFailed hp
  | applyDone hi hp => exact .done hi hp
  | trim => exact .kept .maybeTrim trimMark_maybeTrim
  | addWork hp => exact .kept (.add (not_apply_of_plain hp)) rfl
  | dropWork => exact .kept .drop rfl
  | snapIdx => exact .kept (.of_eq rfl rfl rfl rfl) rfl
  | addCheck => exact .kept (.add rfl) rfl
  | addInstall => exact .kept (.add rfl) rfl
  | dropDisk hi h hd => exact .kept ⟨rfl, rfl, Nat.le_refl _, .snoc rfl⟩ (trimIndex_trimBack hd)
  | install hi => exact .install hi
  | stopState => exact .kept (.of_eq rfl rfl rfl rfl) rfl
  | finishErr => exact .kept .writeEntryFinish trimMark_writeEntryFinish
  | removeCache => exact .kept (.of_eq rfl rfl rfl rfl) rfl
  | clearQueue => exact .kept (ApplyKept.completeCtxs.left rfl rfl (Nat.le_refl _) (.refl _)) trimMark_completeCtxs

/-- The condition on elections as a risk. -/
def applyRisks : Risks := { Risks.none with lead := fun n => applyTop n ≤ n.currentIdx }

theorem ApplyInv.elect {inp : Event → Prop} {n n' : Node} (h : ApplyInv n) (ha : ElectAct inp applyRisks n n') :
    ApplyInv n' ∧ n'.lastApplied = n.lastApplied := by
  obtain ⟨hk, hc, -⟩ := ha.kept
  rcases hc with hc | ⟨hR, hc⟩
  · exact ⟨h.kept ⟨hk.lastApplied, hk.applyInProgress, Nat.le_of_eq hc.symm, hk.pending ▸ .refl _⟩, hk.lastApplied⟩
  · have htop : applyTop n' = applyTop n := by rw [applyTop, applyTop, hk.lastApplied, hk.applyInProgress]
    have hR : applyTop n ≤ n.currentIdx := hR
    have hla : n.lastApplied ≤ applyTop n := by
      unfold applyTop
      split <;> omega
    refine ⟨⟨?_, ?_, ?_, ?_, ?_⟩, hk.lastApplied⟩
    · rw [hk.lastApplied, hc]
      exact Nat.le_trans hla hR
    · rw [htop, hc]
      exact hR
    · rw [hk.pending, hk.applyInProgress]
      exact h.one
    · rw [hk.pending, hk.lastApplied]
      exact h.reads
    · rw [hk.pending, hk.lastApplied]
      exact h.works

/-- The next entry is read, or handed to the state machine. -/
theorem ApplyInv.start {n n' : Node} (h : ApplyInv n) (hc : n.lastApplied ≠ n.commitIdx)
    (hp : n.applyInProgress = false) {p : Pending}
    (hwork : p = .applying (n.lastApplied + 1) ∨ ∃ e, p = .applyRead (n.lastApplied + 1) e)
    (h1 : n'.lastApplied = n.lastApplied) (h2 : n'.applyInProgress = true) (h3 : n'.commitIdx = n.commitIdx)
    (h4 : n'.pending = n.pending ++ [p]) : ApplyInv n' := by
  have hone := h.one
  have happ := h.applied
  rw [hp] at hone
  refine ⟨?_, ?_, ?_, fun idx e hm => ?_, fun idx hm => ?_⟩
  · rw [h1, h3]
    exact happ
  · rw [applyTop, h2, h1, h3]
    exact Nat.lt_of_le_of_ne happ hc
  · rw [h4, h2, List.countP_append, List.countP_singleton, Nat.le_zero.mp hone]
    split <;> decide
  · rw [h1]
    rcases List.mem_append.mp (h4 ▸ hm) with hm | hm
    · exact h.reads idx e hm
    · rcases hwork with rfl | ⟨e', rfl⟩ <;> cases List.mem_singleton.mp hm
      rfl
  · rw [h1]
    rcases List.mem_append.mp (h4 ▸ hm) with hm | hm
    · exact h.works idx hm
    · rcases hwork with rfl | ⟨e', rfl⟩ <;> cases List.mem_singleton.mp hm
      rfl

/-- The work at `p` is over: nothing else is being applied. -/
theorem not_apply_of_mem_erase {ps : List Pending} {p : Pending} {b : Bool}
    (hone : ps.countP Pending.isApply ≤ if b then 1 else 0) (hp : p ∈ ps) (ha : p.isApply = true) :
    ∀ q ∈ ps.erase p, q.isApply = false := by
  have hone : ps.countP Pending.isApply ≤ 1 := by split at hone <;> omega
  have hperm := List.Perm.countP_eq Pending.isApply (List.perm_cons_erase hp)
  rw [hperm, List.countP_cons_of_pos ha] at hone
  have h0 : (ps.erase p).countP Pending.isApply = 0 := by omega
  exact fun q hq => by simpa using List.countP_eq_zero.mp h0 q hq

theorem ApplyInv.erased {n : Node} (h : ApplyInv n) {p : Pending} (hp : p ∈ n.pending) (ha : p.isApply = true) :
    ∀ q ∈ n.pending.erase p, q.isApply = false := not_apply_of_mem_erase h.one hp ha

theorem countP_apply_eq_zero {ps : List Pending} (h : ∀ p ∈ ps, p.isApply = false) : ps.countP Pending.isApply = 0 :=
  List.countP_eq_zero.mpr fun p hp => by simp [h p hp]

/-- Nothing is being applied. -/
theorem ApplyInv.idle {n : Node} (hp : ∀ p ∈ n.pending, p.isApply = false) (hf : n.applyInProgress = false)
    (hc : n.lastApplied ≤ n.commitIdx) : ApplyInv n where
  applied := hc
  top := by simpa [applyTop, hf] using hc
  one := by simp [hf, countP_apply_eq_zero hp]
  reads _ _ hm := by cases hp _ hm
  works _ hm := by cases hp _ hm

/-- One act that neither completes an entry nor installs a snapshot. -/
theorem ApplyInv.act {inp : Event → Prop} {n n' : Node} (h : ApplyInv n) (ha : Act inp applyRisks n n')
    (hdone : ∀ idx res io, ¬inp (.finish (.applying idx) res io)) (hinst : ∀ i, ¬EndsInstall inp i) :
    ApplyInv n' ∧ n'.lastApplied = n.lastApplied := by
  cases applyAct ha with
  | elect ha => exact h.elect ha
  | kept hk => exact ⟨h.kept hk, hk.lastApplied⟩
  | start hc hp hwork heq => rw [heq]; exact ⟨h.start hc hp hwork rfl rfl rfl rfl, rfl⟩
  | @readDone _ idx e hp heq =>
    -- the entry read is the one handed over
    have hrest := h.erased hp rfl
    rw [heq]
    refine ⟨⟨h.applied, h.top, ?_, fun i e' hm => ?_, fun i hm => ?_⟩, rfl⟩
    · have hpos : 0 < n.pending.countP Pending.isApply := List.countP_pos_iff.mpr ⟨.applyRead idx (some e), hp, rfl⟩
      dsimp only
      rw [List.countP_append, countP_apply_eq_zero hrest]
      exact Nat.le_trans hpos h.one
    · rcases List.mem_append.mp hm with hm | hm
      · exact h.reads i e' (List.mem_of_mem_erase hm)
      · cases List.mem_singleton.mp hm
    · rcases List.mem_append.mp hm with hm | hm
      · exact h.works i (List.mem_of_mem_erase hm)
      · cases List.mem_singleton.mp hm
        exact h.reads idx _ hp
  | readFailed hp => exact ⟨.idle (h.erased hp rfl) rfl h.applied, rfl⟩
  | done hi => exact absurd hi.choose_spec (hdone _ _ _)
  | install hi => exact absurd hi (hinst _)

/-! ## Runs -/

theorem ApplySafe.risksOk {s : Applier} {l : Input} (h : ApplySafe s l) (he : AnyEvent l.ev) :
    Node.RisksOk applyRisks s.node l.env l.ev := by
  have hlead : ∀ {m : Node}, WinKeeps m → Node.LeadOk applyRisks m := fun {m} hw hcount k hk _ => by
    show applyTop k ≤ k.currentIdx
    rw [applyTop, hk.applyInProgress, hk.lastApplied, hk.currentIdx]
    exact hw hcount
  obtain ⟨-, h⟩ := h
  obtain ⟨env, ev⟩ := l
  cases ev with
  | recv m =>
    cases m with
    | requestVoteReply dst r => exact fun hc hp ht hg => hlead (h hc hp ht hg)
    | appendEntries dst hb ae => exact fun _ _ _ _ _ _ _ => trivial
    | appendEntriesReply dst hb r => exact ⟨fun _ _ _ _ _ _ _ _ _ => trivial, fun _ _ _ _ => trivial⟩
    | installSnapshotReply dst r => exact fun _ _ _ _ _ => trivial
    | installSnapshot dst m => exact fun _ _ _ _ _ _ _ _ _ _ => trivial
    | _ => trivial
  | timeoutNow => exact fun ho => hlead (h ho)
  | periodic => exact fun hs => hlead (h hs)
  | task => exact fun _ => trivial
  | write e client => exact he
  | finish p res io =>
    have he : res ≤ 0 := he
    cases p with
    | truncatePrev =>
      show res ≠ 1
      omega
    | snapWrite => exact fun _ _ _ _ _ _ _ _ => trivial
    | snapSetIndex => exact fun _ => trivial
    | diskAppend => exact fun _ => trivial
    | recoveryRead => exact fun _ _ => trivial
    | _ => trivial
  | _ => trivial

/-- A snapshot up to `i` was installed. -/
structure InstalledAt (i : Nat) (n n' : Node) : Prop where
  lastApplied : n'.lastApplied = i
  commitIdx : n'.commitIdx = i
  applyInProgress : n'.applyInProgress = n.applyInProgress
  pending : ApplyWorkLe n.pending n'.pending
  trimMark : trimMark n' = max (trimMark n) i

/-- Nothing was installed. -/
structure NotInstalled (n n' : Node) : Prop where
  kept : ApplyKept n n'
  trimMark : trimMark n' = trimMark n

/-- The end of an installsnapshot: the snapshot is installed unless the disk
log has to be emptied first. -/
theorem snapWriteDone_apply {n : Node} {env : Env} {src i : Nat} {done : Bool} {r : InstallSnapshotReply} {res : Int} :
    if done = true ∧ n.NoTrim then InstalledAt i n (n.snapWriteDone env src done i r res)
    else NotInstalled n (n.snapWriteDone env src done i r res) := by
  unfold Node.snapWriteDone Node.NoTrim
  cases done with
  | false => exact ⟨.of_eq rfl rfl rfl rfl, rfl⟩
  | true =>
    simp only [true_and, if_true, Node.setElectionTimer]
    cases hd : n.log.disk.trimBack n.log.disk.lowestIndex n.log.disk.highestIndex with
    | none =>
      rw [if_pos rfl]
      exact ⟨rfl, rfl, rfl, .refl _, rfl⟩
    | some d =>
      rw [if_neg (by simp)]
      exact ⟨⟨rfl, rfl, Nat.le_refl _, .snoc rfl⟩, trimIndex_trimBack hd⟩

theorem followSnapshot_apply {n : Node} {env : Env} {src t : Nat} : ApplyKept n (n.followSnapshot env src t) := by
  unfold Node.followSnapshot Node.setCurrentTerm
  split <;> dsimp only <;> split <;> exact .of_eq rfl rfl rfl rfl

/-- The events that may install a snapshot. -/
def mayInstall : Event → Bool
  | .recv (.installSnapshot _ _) => true
  | .finish (.snapWrite _ _ _ _) _ _ => true
  | .finish (.snapSetIndex _ _ _) _ _ => true
  | _ => false

/-- What one event does: it installs the snapshot of `installIdx`, or leaves
what is applied. -/
def InstallsOr (n n' : Node) : Option Nat → Prop
  | some i => InstalledAt i n n'
  | none => NotInstalled n n'

theorem InstallsOr.none {n n' : Node} {o : Option Nat} (ho : o = Option.none) (h : ApplyKept n n')
    (ht : trimMark n' = trimMark n) : InstallsOr n n' o := by
  rw [ho]
  exact ⟨h, ht⟩

theorem InstallsOr.some {n n' : Node} {o : Option Nat} {i : Nat} (ho : o = Option.some i) (h : InstalledAt i n n') :
    InstallsOr n n' o := by
  rw [ho]
  exact h

theorem recvInstallsnapshot_apply {n : Node} {env : Env} {dst : Nat} {m : InstallSnapshot} :
    InstallsOr n (n.recvInstallsnapshot env m) (installIdx n (.recv (.installSnapshot dst m))) := by
  unfold Node.recvInstallsnapshot
  split
  · next ho => exact .none (if_neg fun hc => ho (Node.toErrno_eq_zero.mpr hc.1)) (.of_eq rfl rfl rfl rfl) rfl
  · next ho =>
    have ho : n.opState = .active := Node.toErrno_eq_zero.mp (not_not.mp ho)
    split
    · next ht => exact .none (if_neg fun hc => by omega) (.of_eq rfl rfl rfl rfl) rfl
    · next ht =>
      have hf : ApplyKept n (n.followSnapshot env m.nodeId m.term) := followSnapshot_apply
      have hlog : (n.followSnapshot env m.nodeId m.term).log = n.log := Node.followSnapshot_keeps.1
      have hmark : trimMark (n.followSnapshot env m.nodeId m.term) = trimMark n := by rw [trimMark, hlog]; rfl
      have hnt : (n.followSnapshot env m.nodeId m.term).NoTrim ↔ n.NoTrim := by rw [Node.NoTrim, Node.NoTrim, hlog]
      dsimp only
      split
      · next hobj =>
        have hw := @snapWriteDone_apply (n.followSnapshot env m.nodeId m.term) env m.nodeId m.lastIdx m.done
          { nodeId := (n.followSnapshot env m.nodeId m.term).nodeId
            term := (n.followSnapshot env m.nodeId m.term).currentTerm } 0
        split at hw
        · next hc =>
          refine .some (if_pos ⟨ho, Nat.le_of_not_lt ht, hc.1, by simpa using hobj, hnt.mp hc.2⟩) ?_
          exact ⟨hw.lastApplied, hw.commitIdx, hw.applyInProgress.trans hf.applyInProgress,
            hf.pending.trans hw.pending, hmark ▸ hw.trimMark⟩
        · next hc =>
          exact .none (if_neg fun hc' => hc ⟨hc'.2.2.1, hnt.mpr hc'.2.2.2.2⟩) (hf.trans hw.kept)
            (hw.trimMark.trans hmark)
      · next hobj => exact .none (if_neg fun hc => hobj (by simp [hc.2.2.2.1])) (hf.trans (.add rfl)) hmark

theorem install_apply {md5 : Bytes → Bytes} {n : Node} {env : Env} {ev : Event} (h : mayInstall ev = true) :
    InstallsOr n (n.handle md5 env ev) (installIdx n ev) := by
  cases ev with
  | recv m =>
    cases m with
    | installSnapshot dst m => exact recvInstallsnapshot_apply
    | _ => cases h
  | finish p res io =>
    cases p with
    | snapWrite src done i r =>
      dsimp only [Node.handle]
      split
      · next hp =>
        have hp : .snapWrite src done i r ∈ n.pending := by simpa using hp
        have hw := @snapWriteDone_apply { n with pending := n.pending.erase (.snapWrite src done i r) } env src i
          done r res
        split at hw
        · next hc =>
          refine .some (if_pos ⟨hp, hc.1, hc.2⟩) ?_
          exact ⟨hw.lastApplied, hw.commitIdx, hw.applyInProgress, ApplyWorkLe.erase.trans hw.pending, hw.trimMark⟩
        · next hc => exact .none (if_neg fun hc' => hc hc'.2) (ApplyKept.drop.trans hw.kept) hw.trimMark
      · next hp => exact .none (if_neg fun hc => hp (by simpa using hc.1)) (.refl n) rfl
    | snapSetIndex src i r =>
      dsimp only [Node.handle]
      split
      · next hp => exact .some (if_pos (by simpa using hp)) ⟨rfl, rfl, rfl, .erase, rfl⟩
      · next hp => exact .none (if_neg (by simpa using hp)) (.refl n) rfl
    | _ => cases h
  | _ => cases h

theorem applyDone_fields {n : Node} {idx : Nat} {res : Int} :
    (n.applyDone idx res).lastApplied = (if res = 0 then idx else n.lastApplied) ∧
      (n.applyDone idx res).commitIdx = n.commitIdx ∧ (n.applyDone idx res).pending = n.pending ∧
      (n.applyDone idx res).applyInProgress = false := by
  unfold Node.applyDone
  dsimp only
  split
  · obtain ⟨a, os, he, -, -⟩ := @Node.completeCtxs_frame
      { n with lastApplied := idx, log := { n.log with cache := (n.log.cache.completeEntryBetween idx idx).2 } } 0
      (n.log.cache.completeEntryBetween idx idx).1
    dsimp only [Node.writeEntryFinish]
    rw [he]
    exact ⟨rfl, rfl, rfl, rfl⟩
  · exact ⟨rfl, rfl, rfl, rfl⟩

/-- The completion of an entry. -/
theorem applying_apply {md5 : Bytes → Bytes} {n : Node} {env : Env} {idx : Nat} {res : Int} {io : IoData}
    (h : ApplyInv n) : ApplyInv (n.handle md5 env (.finish (.applying idx) res io)) ∧
      ∀ l items, InOrder l items n.lastApplied → InOrder l (items ++ applyItems n (.finish (.applying idx) res io))
        (n.handle md5 env (.finish (.applying idx) res io)).lastApplied := by
  by_cases hp : .applying idx ∈ n.pending
  · obtain rfl : idx = n.lastApplied + 1 := h.works idx hp
    have hrest := h.erased hp rfl
    -- its work is pending, so the flag is set and `top` speaks of it
    have hle : n.lastApplied + 1 ≤ n.commitIdx := by
      have hone := h.one
      have htop := h.top
      have hpos : 0 < n.pending.countP Pending.isApply := List.countP_pos_iff.mpr ⟨_, hp, rfl⟩
      unfold applyTop at htop
      split at htop
      · exact htop
      · next hb =>
        rw [if_neg hb] at hone
        omega
    obtain ⟨h1, h2, h3, h4⟩ := @applyDone_fields
      { n with pending := n.pending.erase (.applying (n.lastApplied + 1)) } (n.lastApplied + 1) res
    have hn : n.handle md5 env (.finish (.applying (n.lastApplied + 1)) res io) =
        ({ n with pending := n.pending.erase (.applying (n.lastApplied + 1)) } : Node).applyDone
            (n.lastApplied + 1) res := by
      dsimp only [Node.handle]
      rw [if_pos (by simpa using hp)]
      rfl
    rw [hn]
    refine ⟨.idle (by rw [h3]; exact hrest) h4 ?_, fun l items ho => ?_⟩
    · rw [h1, h2]
      split
      · exact hle
      · exact h.applied
    · by_cases h0 : res = 0
      · have hitems : applyItems n (.finish (.applying (n.lastApplied + 1)) res io) =
            [.applied (n.lastApplied + 1) n.commitIdx] := if_pos ⟨hp, h0⟩
        rw [hitems, h1, if_pos h0]
        exact ho.applied hle
      · have hitems : applyItems n (.finish (.applying (n.lastApplied + 1)) res io) = [] := if_neg fun hc => h0 hc.2
        rw [hitems, h1, if_neg h0, List.append_nil]
        exact ho
  · have hn : n.handle md5 env (.finish (.applying idx) res io) = n := by
      dsimp only [Node.handle]
      rw [if_neg (by simpa using hp)]
    rw [hn]
    refine ⟨h, fun l items ho => ?_⟩
    have : applyItems n (.finish (.applying idx) res io) = [] := if_neg fun hc => hp hc.1
    rwa [this, List.append_nil]

theorem not_endsInstall {ev : Event} (h : mayInstall ev = false) : ∀ i, ¬EndsInstall (· = ev) i := by
  rintro i (⟨dst, m, hm, -⟩ | ⟨src, done, r, res, io, hm⟩ | ⟨src, r, res, io, hm⟩) <;> rw [← hm] at h <;> cases h

/-- The events that neither complete an entry nor may install a snapshot. -/
theorem other_apply {md5 : Bytes → Bytes} {s : Applier} {e : Input} (h : ApplyInv s.node) (he : AnyEvent e.ev)
    (hsafe : ApplySafe s e) (hdone : ∀ idx res io, e.ev ≠ .finish (.applying idx) res io)
    (hinst : mayInstall e.ev = false) :
    ApplyInv (s.node.handle md5 e.env e.ev) ∧ (s.node.handle md5 e.env e.ev).lastApplied = s.node.lastApplied := by
  have hacts : Acts (· = e.ev) applyRisks s.node (s.node.handle md5 e.env e.ev) :=
    Node.handle_acts rfl (hsafe.risksOk he)
  generalize s.node.handle md5 e.env e.ev = m at hacts
  induction hacts with
  | refl => exact ⟨h, rfl⟩
  | tail _ ha ih =>
    obtain ⟨h1, h2⟩ := ih.1.act ha (fun idx res io hm => hdone idx res io hm.symm) (not_endsInstall hinst)
    exact ⟨h1, h2.trans ih.2⟩

theorem InOrder.installItems {l : Nat} {items : List ApplyItem} {n n' : Node} {ev : Event}
    (h : InOrder l items n.lastApplied) (hi : InstallsOr n n' (installIdx n ev))
    (hle : ∀ i, installIdx n ev = some i → n.lastApplied ≤ i) :
    InOrder l (items ++ ((installIdx n ev).map ApplyItem.installed).toList) n'.lastApplied := by
  cases hidx : installIdx n ev with
  | none =>
    rw [hidx] at hi
    simpa [hi.kept.lastApplied] using h
  | some i =>
    rw [hidx] at hi
    rw [InstalledAt.lastApplied hi]
    exact h.installed (hle i hidx)

/-- One event. -/
theorem ApplyInv.handle {md5 : Bytes → Bytes} {s : Applier} {e : Input} (h : ApplyInv s.node) (he : AnyEvent e.ev)
    (hsafe : ApplySafe s e) : ApplyInv (s.node.handle md5 e.env e.ev) ∧
      ∀ l items, InOrder l items s.node.lastApplied →
        InOrder l (items ++ applyItems s.node e.ev) (s.node.handle md5 e.env e.ev).lastApplied := by
  obtain ⟨env, ev⟩ := e
  by_cases hdone : ∃ idx res io, ev = .finish (.applying idx) res io
  · obtain ⟨idx, res, io, rfl⟩ := hdone
    exact applying_apply h
  · have hitems : applyItems s.node ev = ((installIdx s.node ev).map ApplyItem.installed).toList := by
      unfold applyItems
      split
      · exact absurd ⟨_, _, _, rfl⟩ hdone
      · rfl
    have hle : ∀ i, installIdx s.node ev = some i → s.node.lastApplied ≤ i := fun i hi => (hsafe.1 i hi).2
    rw [hitems]
    cases hinst : mayInstall ev with
    | true =>
      have hi : InstallsOr s.node (s.node.handle md5 env ev) (installIdx s.node ev) := install_apply hinst
      refine ⟨?_, fun l items ho => ho.installItems hi hle⟩
      cases hidx : installIdx s.node ev with
      | none =>
        rw [hidx] at hi
        exact h.kept hi.kept
      | some i =>
        rw [hidx] at hi
        obtain ⟨h1, h2, h3, h4, -⟩ := hi
        -- the snapshot came between two entries: no work is left over
        obtain ⟨hidle, -⟩ := hsafe.1 i hidx
        refine .idle (fun p hp => ?_) (h3.trans hidle) (Nat.le_of_eq (h1.trans h2.symm))
        by_contra ha
        have ha : p.isApply = true := by simpa using ha
        have hone : s.node.pending.countP Pending.isApply ≤ 0 := by simpa [hidle] using h.one
        have hpos : 0 < s.node.pending.countP Pending.isApply := List.countP_pos_iff.mpr ⟨p, h4.1 p hp ha, ha⟩
        omega
    | false =>
      obtain ⟨h1, h2⟩ := @other_apply md5 s ⟨env, ev⟩ h he hsafe
        (fun idx res io heq => hdone ⟨idx, res, io, heq⟩) hinst
      have hnone : installIdx s.node ev = none := by
        unfold installIdx
        split <;> first | rfl | cases hinst
      refine ⟨h1, fun l items ho => ?_⟩
      rw [hnone, h2]
      simpa using ho

theorem InOrder.le {l k : Nat} {items : List ApplyItem} (h : InOrder l items k) : l ≤ k := by
  induction h with
  | nil => exact Nat.le_refl l
  | applied _ _ ih => exact Nat.le_succ_of_le ih
  | installed _ hi ih => exact Nat.le_trans ih hi

/-- **In-order exactly-once apply.** In every run without changes of the
membership in which snapshots are installed between two entries and lead
forward, and elections are won without losing what was applied, the entries
are applied one after the other, none before it is committed, the indices
applied are increasing, and the last index applied never goes back. -/
theorem apply_in_order {md5 : Bytes → Bytes} {s₀ s s' : Applier} {ls : List Input} {e : Input}
    (h0 : (applier md5).init s₀) (hr : ((applier md5).restrict ApplySafe).Run s₀ ls s)
    (hs : ((applier md5).restrict ApplySafe).step s e s') :
    InOrder s₀.node.lastApplied s'.items s'.node.lastApplied ∧ (appliedIdxs s'.items).Pairwise (· < ·) ∧
      s.node.lastApplied ≤ s'.node.lastApplied := by
  have hstep : ∀ (a : Applier) (e : Input) (b : Applier), ApplyInv a.node ∧
      InOrder s₀.node.lastApplied a.items a.node.lastApplied → ((applier md5).restrict ApplySafe).step a e b →
      ApplyInv b.node ∧ InOrder s₀.node.lastApplied b.items b.node.lastApplied := by
    rintro a e b ⟨hi, ho⟩ ⟨hsafe, he, rfl⟩
    obtain ⟨h1, h2⟩ := hi.handle he hsafe
    exact ⟨h1, h2 _ _ ho⟩
  -- along the run, then once more for the last step
  have hinv : ApplyInv s.node ∧ InOrder s₀.node.lastApplied s.items s.node.lastApplied := by
    refine hr.invariant (I := fun _ a => ApplyInv a.node ∧ InOrder s₀.node.lastApplied a.items a.node.lastApplied) ?_
      fun _ a e b => hstep a e b
    obtain ⟨hitems, hflag, hpend, hle⟩ := h0
    exact ⟨.idle hpend hflag hle, hitems ▸ .nil⟩
  have hinv' := hstep s e s' hinv hs
  refine ⟨hinv'.2, hinv'.2.increasing.1, ?_⟩
  obtain ⟨hsafe, he, rfl⟩ := hs
  exact ((hinv.1.handle he hsafe).2 _ [] .nil).le

/-! ## A follower with a committed entry -/

instance (n : Node) : Decidable (WinKeeps n) := inferInstanceAs (Decidable (_ → _))

instance (s : Applier) (l : Input) : Decidable (ApplySafe s l) := by
  unfold ApplySafe
  refine @instDecidableAnd _ _ inferInstance ?_
  split <;> infer_instance

/-- Server 1 gets an entry that the leader has committed, and starts to
apply it. -/
def applyOne : List Input :=
  [.recv (Cluster.aeOf 0 1 1 0 0 1 [Cluster.writeOf 1 1 1]),
    .finish (.followAppend 1 1 1 [Cluster.writeOf 1 1 1]) 0 {}, .applyTask].map fun ev => ⟨Cluster.envAt 3000, ev⟩

/-- The last message of a snapshot up to index 5. -/
def lastChunk : List Input :=
  [.recv (.installSnapshot 1 ⟨0, 1, 5, 1, true, []⟩), .finish (.snapSetIndex 0 5 ⟨1, 1, 1, 4000⟩) 0 {}].map
    fun ev => ⟨Cluster.envAt 3000, ev⟩

def applyDoneStep : Input := ⟨Cluster.envAt 3000, .finish (.applying 1) 0 {}⟩

def follower : Applier := ⟨boot Cluster.trio 1 0 0 1000 true, []⟩

theorem follower_init : (applier id).init follower := ⟨rfl, rfl, (fun _ h => by cases h), Nat.le_refl 0⟩

/-- A run of the system from labels whose steps are enabled and meet `G`. -/
theorem run_follower {G : Applier → Input → Prop} (ls : List Input)
    (h : Lts.Along (Applier.next id) (fun s l => G s l ∧ AnyEvent l.ev) follower ls) :
    ((applier id).restrict G).Run follower ls (ls.foldl (Applier.next id) follower) := by
  refine Lts.Run.along (fun s l hs => ?_) h
  exact ⟨hs.1, hs.2, rfl⟩

/-- The entry is applied, then the snapshot is installed. -/
theorem apply_in_order_snapshot :
    let s := (applyOne ++ [applyDoneStep] ++ lastChunk.dropLast).foldl (Applier.next id) follower
    let s' := (applyOne ++ [applyDoneStep] ++ lastChunk).foldl (Applier.next id) follower
    s'.items = [.applied 1 1, .installed 5] ∧ InOrder 0 s'.items s'.node.lastApplied ∧
      (appliedIdxs s'.items).Pairwise (· < ·) ∧ s.node.lastApplied ≤ s'.node.lastApplied := by
  have hrun := @run_follower ApplySafe (applyOne ++ [applyDoneStep] ++ lastChunk.dropLast) (by decide +kernel)
  refine ⟨by decide +kernel, apply_in_order follower_init hrun ⟨?_, ?_, rfl⟩⟩
  · decide +kernel
  · decide

/-- A snapshot is installed while the entry is being applied: its completion
sets the last index applied back from 5 to 1. -/
theorem apply_goes_back :
    let s := (applyOne ++ lastChunk).foldl (Applier.next id) follower
    let s' := s.next id applyDoneStep
    (applier id).Reachable s ∧ (applier id).step s applyDoneStep s' ∧ s.node.lastApplied = 5 ∧
      s'.node.lastApplied = 1 ∧ s'.items = [.installed 5, .applied 1 5] := by
  have hrun := @run_follower (fun _ _ => True) (applyOne ++ lastChunk) (by decide +kernel)
  refine ⟨Lts.Reachable.of_restrict ⟨_, _, follower_init, hrun⟩, ⟨by decide, rfl⟩, ?_⟩
  decide +kernel

end Fastblock.L4
