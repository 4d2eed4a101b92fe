import Fastblock.L3Raft.Step

/-!
# A snapshot that cannot be installed

The object writes of an installsnapshot request (`write_ctx`,
src/raft/raft_server.cc:1720-1796) run one after the other; the first
error ends them and is what `write_fn` is called with. `write_fn` puts the
error in the response, and then resets the disk log and sets the indices
all the same if the request is the last one of the snapshot; the result of
the reset is not looked at either.

`Node.installFully` is a request from its arrival to its answer.
`failed_install_iff` says for which failed requests the indices stay and
the leader is told.
-/
namespace Fastblock.L3.Raft

/-! ## The object writes -/

/-- `SNAPSHOT_MAX_CONCURRENT` -/
def snapshotMaxConcurrent : Nat := 1

/-- `write_ctx` -/
structure WriteCtx where
  count : Nat
  num : Nat := 0
  rerrno : Int := 0

/-- What is done when a write has completed. -/
inductive WriteAct where
  /-- `_fn(rerrno)` -/
  | call (rerrno : Int)
  /-- `write_snapshot`: the next batch -/
  | next
  | wait
  deriving DecidableEq, Repr

namespace WriteCtx

/-- mirrors raft_server.cc:1741-1758 -/
def finishDel (w : WriteCtx) (rerrno : Int) : WriteCtx × WriteAct :=
  let w := { w with num := w.num + 1, rerrno := if rerrno ≠ 0 ∧ w.rerrno = 0 then rerrno else w.rerrno }
  if rerrno ≠ 0 ∧ (w.num % snapshotMaxConcurrent = 0 ∨ w.num = w.count) then (w, .call w.rerrno)
  else if w.num = w.count then (w, .call 0)
  else if w.num % snapshotMaxConcurrent = 0 then (w, .next)
  else (w, .wait)

/-- What `_fn` is called with when the writes return `results`, in the order
they complete. -/
def run (w : WriteCtx) : List Int → Option Int
  | [] => none
  | r :: rs =>
    match w.finishDel r with
    | (_, .call rerrno) => some rerrno
    | (w, .next) => w.run rs
    | (w, .wait) => w.run rs

/-- The first error of the writes, 0 if there is none. -/
def firstError (results : List Int) : Int := (results.find? (· ≠ 0)).getD 0

theorem firstError_ne_zero_iff {results : List Int} : firstError results ≠ 0 ↔ ∃ r ∈ results, r ≠ 0 := by
  unfold firstError
  cases h : results.find? (· ≠ 0) with
  | none => simpa using List.find?_eq_none.mp h
  | some r =>
    have hr : r ≠ 0 := by simpa using List.find?_some h
    exact ⟨fun _ => ⟨r, List.mem_of_find?_eq_some h, hr⟩, fun _ => hr⟩

theorem firstError_le {results : List Int} (h : ∀ r ∈ results, r ≤ 0) : firstError results ≤ 0 := by
  unfold firstError
  cases hf : results.find? (· ≠ 0) with
  | none => exact Int.le_refl 0
  | some r => exact h r (List.mem_of_find?_eq_some hf)

/-- The first error is reported, at whatever position it is. -/
theorem run_eq {w : WriteCtx} (hr : w.rerrno = 0) {rs : List Int} (hn : w.num + rs.length = w.count) (hne : rs ≠ []) :
    w.run rs = some (firstError rs) := by
  unfold firstError
  induction rs generalizing w with
  | nil => exact absurd rfl hne
  | cons r rs ih =>
    rw [List.length_cons] at hn
    have hmod : (w.num + 1) % snapshotMaxConcurrent = 0 := Nat.mod_one _
    by_cases h : r = 0
    · rw [List.find?_cons_of_neg (by simp [h])]
      cases rs with
      | nil => simp [run, finishDel, h, show w.num + 1 = w.count from hn]
      | cons r' rs =>
        rw [List.length_cons] at hn
        have hlt : w.num + 1 ≠ w.count := by omega
        have hrun : w.run (r :: r' :: rs) = run { w with num := w.num + 1 } (r' :: rs) := by
          rw [run]
          simp [finishDel, h, hmod, hlt]
        rw [hrun]
        exact ih hr (by rw [List.length_cons]; dsimp only; omega) (by simp)
    · rw [List.find?_cons_of_pos (by simpa using h)]
      simp [run, finishDel, h, hmod, hr]

end WriteCtx

/-! ## A request from its arrival to its answer -/

/-- The indices that a snapshot sets. -/
structure Marks where
  lastApplied : Nat
  currentIdx : Nat
  commitIdx : Nat
  nextIdx : Nat
  deriving DecidableEq, Repr

def Node.marks (n : Node) : Marks := ⟨n.lastApplied, n.currentIdx, n.commitIdx, n.log.nextIdx⟩

/-- The marks of a snapshot at `i`. -/
def Marks.ofSnapshot (i : Nat) : Marks := ⟨i, i, i, i + 1⟩

/-- The disk log cannot be emptied, or the trim reports an error. -/
def Node.ResetFails (n : Node) (reset : Int) : Prop :=
  (n.log.disk.entries ≠ [] ∨ n.log.disk.blank = true) ∧
    (n.log.disk.trimBack n.log.disk.lowestIndex n.log.disk.highestIndex = none ∨ reset ≠ 0)

def installReplies (os : List Out) : List InstallSnapshotReply :=
  os.filterMap fun
    | .send (.installSnapshotReply _ r) => some r
    | _ => none

section

variable (md5 : Bytes → Bytes) {n : Node} {env env' : Env} {m : InstallSnapshot}

/-- The work that was added to the `k` pieces pending before completes with
`res`. -/
def Node.finishAdded (n : Node) (env : Env) (k : Nat) (res : Int) : Node :=
  match n.pending[k]? with
  | none => n
  | some p => n.handle md5 env (.finish p res {})

/-- A request for which the object writes return `results` and the trim of
the disk log `reset`. -/
def Node.installFully (n : Node) (env env' : Env) (m : InstallSnapshot) (results : List Int) (reset : Int) : Node :=
  let k := n.pending.length
  let n := n.recvInstallsnapshot env m
  let n := match (WriteCtx.mk m.objects.length 0 0).run results with
    | none => n
    | some rerrno => n.finishAdded md5 env' k rerrno
  n.finishAdded md5 env' k reset

theorem Node.finishAdded_none {k : Nat} (h : n.pending.length ≤ k) (res : Int) : n.finishAdded md5 env k res = n := by
  rw [Node.finishAdded, List.getElem?_eq_none h]

theorem Node.finishAdded_one {ps : List Pending} {p : Pending} (h : n.pending = ps ++ [p]) (res : Int) :
    n.finishAdded md5 env ps.length res =
      ({ n with pending := n.pending.erase p } : Node).finishWork md5 env res {} p := by
  have hk : n.pending[ps.length]? = some p := by rw [h, List.getElem?_concat_length]
  rw [Node.finishAdded, hk]
  dsimp only
  rw [Node.handle, if_pos (by simp [h])]

/-- Taking the leader's term and role changes none of the indices and sends
nothing. -/
theorem Node.followSnapshot_frame (src t : Nat) : (n.followSnapshot env src t).marks = n.marks ∧
    (n.followSnapshot env src t).pending = n.pending ∧
    ∃ os, (n.followSnapshot env src t).out = n.out ++ os ∧ installReplies os = [] := by
  have hterm : (n.setCurrentTerm t).marks = n.marks ∧ (n.setCurrentTerm t).pending = n.pending ∧
      ∃ os, (n.setCurrentTerm t).out = n.out ++ os ∧ installReplies os = [] := by
    unfold Node.setCurrentTerm
    split
    · exact ⟨rfl, rfl, _, rfl, rfl⟩
    · exact ⟨rfl, rfl, [], (List.append_nil _).symm, rfl⟩
  unfold Node.followSnapshot
  dsimp only
  split <;> exact hterm

/-- `write_fn` and what follows it. -/
theorem Node.writeFn_end (src index : Nat) (done : Bool) (r : InstallSnapshotReply) (res reset : Int) :
    ∃ r', r'.success = (if res ≠ 0 then res else 1) ∧
      ((n.snapWriteDone env src done index r res).finishAdded md5 env' n.pending.length reset).marks =
        (if done then .ofSnapshot index else n.marks) ∧
      ((n.snapWriteDone env src done index r res).finishAdded md5 env' n.pending.length reset).out =
        n.out ++ [.send (.installSnapshotReply src r')] := by
  refine ⟨{ r with lease := env.now + n.electionTimeout, success := if res ≠ 0 then res else 1 }, rfl, ?_⟩
  unfold Node.snapWriteDone
  cases done with
  | false =>
    rw [if_neg (by simp), Node.finishAdded_none]
    · exact ⟨rfl, rfl⟩
    · exact Nat.le_refl _
  | true =>
    rw [if_pos rfl]
    dsimp only
    split
    · rw [Node.finishAdded_none]
      · exact ⟨rfl, rfl⟩
      · exact Nat.le_refl _
    · rw [Node.finishAdded_one md5 rfl]
      exact ⟨rfl, rfl⟩

/-- The request ends in `write_fn` with the first error of the writes. -/
theorem Node.installFully_end (ho : n.opState = .active) (ht : n.currentTerm ≤ m.term)
    {results : List Int} {reset : Int}
    (hlen : results.length = m.objects.length) : ∃ (r' : InstallSnapshotReply) (os : List Out),
      r'.success = (if WriteCtx.firstError results ≠ 0 then WriteCtx.firstError results else 1) ∧
      (n.installFully md5 env env' m results reset).marks = (if m.done then .ofSnapshot m.lastIdx else n.marks) ∧
      (n.installFully md5 env env' m results reset).out = n.out ++
        (os ++ [.send (.installSnapshotReply m.nodeId r')]) ∧
      installReplies os = [] := by
  obtain ⟨hmarks, hpend, os, hout, hos⟩ := @Node.followSnapshot_frame n env m.nodeId m.term
  have hrecv : n.recvInstallsnapshot env m = if m.objects.isEmpty then
      (n.followSnapshot env m.nodeId m.term).snapWriteDone env m.nodeId m.done m.lastIdx
        { nodeId := (n.followSnapshot env m.nodeId m.term).nodeId
          term := (n.followSnapshot env m.nodeId m.term).currentTerm } 0
      else { n.followSnapshot env m.nodeId m.term with
        pending := (n.followSnapshot env m.nodeId m.term).pending ++ [.snapWrite m.nodeId m.done m.lastIdx
          { nodeId := (n.followSnapshot env m.nodeId m.term).nodeId
            term := (n.followSnapshot env m.nodeId m.term).currentTerm }] } := by
    rw [Node.recvInstallsnapshot, if_neg (by simp [ho, OpState.toErrno]), if_neg (Nat.not_lt.mpr ht)]
  generalize n.followSnapshot env m.nodeId m.term = f at hmarks hpend hout hrecv
  unfold Node.installFully
  dsimp only
  rw [← hpend]
  suffices h : ∃ r' : InstallSnapshotReply, r'.success = _ ∧ _ = (if m.done then .ofSnapshot m.lastIdx else f.marks) ∧
      _ = f.out ++ [.send (.installSnapshotReply m.nodeId r')] by
    obtain ⟨r', h1, h2, h3⟩ := h
    exact ⟨r', os, h1, h2.trans (by rw [hmarks]), h3.trans (by rw [hout, List.append_assoc]), hos⟩
  by_cases hobj : m.objects = []
  · rw [hobj, List.length_nil, List.length_eq_zero_iff] at hlen
    rw [if_pos (by simp [hobj])] at hrecv
    rw [hrecv, hlen]
    exact f.writeFn_end md5 m.nodeId m.lastIdx m.done _ 0 reset
  · have hne : results ≠ [] := fun h => hobj (List.length_eq_zero_iff.mp (by rw [← hlen, h, List.length_nil]))
    rw [if_neg (by simpa using hobj)] at hrecv
    rw [hrecv, WriteCtx.run_eq rfl (by dsimp only; omega) hne]
    obtain ⟨p, hp⟩ : ∃ p : Pending, p = .snapWrite m.nodeId m.done m.lastIdx
      { nodeId := f.nodeId, term := f.currentTerm } := ⟨_, rfl⟩
    rw [← hp]
    obtain ⟨g, hg⟩ : ∃ g : Node, g = { f with pending := f.pending ++ [p] } := ⟨_, rfl⟩
    rw [← hg]
    have hgp : g.pending = f.pending ++ [p] := by rw [hg]
    dsimp only
    rw [Node.finishAdded_one md5 hgp, hp, Node.finishWork, ← hp]
    have hlen' : f.pending.length = (g.pending.erase p).length := by
      rw [hgp, List.length_erase_of_mem (by simp), List.length_append, List.length_singleton, Nat.add_sub_cancel]
    have hmarks' : f.marks = ({ g with pending := g.pending.erase p } : Node).marks := by rw [hg]; rfl
    have hout' : f.out = ({ g with pending := g.pending.erase p } : Node).out := by rw [hg]
    rw [hlen', hmarks', hout']
    exact Node.writeFn_end md5 m.nodeId m.lastIdx m.done _ _ reset

/-- **A failed request.** The indices stay and the response is no success
exactly if an object write failed and the request was not the last one of
its snapshot, or the indices were those of the snapshot before. -/
theorem failed_install_iff (ho : n.opState = .active) (ht : n.currentTerm ≤ m.term) {results : List Int} {reset : Int}
    (hlen : results.length = m.objects.length) (herr : ∀ r ∈ results, r ≤ 0)
    (_hfail : (∃ r ∈ results, r ≠ 0) ∨ m.done = true ∧ n.ResetFails reset) :
    ((n.installFully md5 env env' m results reset).marks = n.marks ∧
      ∀ r ∈ installReplies ((n.installFully md5 env env' m results reset).out.drop n.out.length), r.success ≠ 1) ↔
    (∃ r ∈ results, r ≠ 0) ∧ (m.done = false ∨ n.marks = .ofSnapshot m.lastIdx) := by
  obtain ⟨r', os, hsucc, hend, hsent, hos⟩ := @Node.installFully_end md5 n env env' m ho ht results reset hlen
  have hreplies : installReplies ((n.installFully md5 env env' m results reset).out.drop n.out.length) = [r'] := by
    rw [hsent, List.drop_left, installReplies, List.filterMap_append]
    exact congrArg (· ++ [r']) hos
  rw [hreplies, List.forall_mem_singleton, hend, hsucc]
  by_cases hwrite : ∃ r ∈ results, r ≠ 0
  · have hneg := WriteCtx.firstError_le herr
    rw [if_pos (WriteCtx.firstError_ne_zero_iff.mpr hwrite)]
    simp only [hwrite, true_and]
    cases m.done with
    | false =>
      simp only [Bool.false_eq_true, if_false, true_or, true_and, iff_true]
      omega
    | true =>
      simp only [if_true, Bool.true_eq_false, false_or]
      exact ⟨fun h => h.1.symm, fun h => ⟨h.symm, by omega⟩⟩
  · rw [if_neg fun h => hwrite (WriteCtx.firstError_ne_zero_iff.mp h)]
    simp [hwrite]

/-- Server 1 with one entry, and requests of a snapshot at index 9. -/
def installFollower : Node :=
  { nodeId := 1
    currentIdx := 1
    log := { nextIdx := 2, disk := { entries := [⟨1, 1, .write, [], []⟩], highestIndex := 1 } } }

def installRequest (done : Bool) : InstallSnapshot := ⟨0, 1, 9, 1, done, [⟨"o", [1]⟩]⟩

/-- The write of the object fails, and the snapshot goes on. -/
theorem failed_install_first_chunk :
    let n := installFollower.installFully id ⟨0, 0, fun _ => true⟩ ⟨0, 0, fun _ => true⟩ (installRequest false) [-5] 0
    n.marks = installFollower.marks ∧ ∀ r ∈ installReplies (n.out.drop installFollower.out.length), r.success ≠ 1 :=
  (failed_install_iff id rfl (by decide) rfl (by decide) (.inl ⟨-5, by decide, by decide⟩)).mpr
    ⟨⟨-5, by decide, by decide⟩, .inl rfl⟩

/-- The last object cannot be written, and the server takes itself to have
applied the snapshot; the disk log cannot be reset, and the leader is told
that all went well. -/
theorem failed_install_sets_marks :
    let env : Env := ⟨0, 0, fun _ => true⟩
    let n := installFollower.installFully id env env (installRequest true) [-5] 0
    let n' := installFollower.installFully id env env (installRequest true) [0] (-5)
    n.marks = .ofSnapshot 9 ∧ n'.marks = .ofSnapshot 9 ∧ (installReplies n'.out).map (·.success) = [1] ∧
      installFollower.marks = ⟨0, 1, 0, 2⟩ := by
  decide +kernel

end
end Fastblock.L3.Raft
