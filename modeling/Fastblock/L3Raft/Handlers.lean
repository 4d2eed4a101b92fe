import Fastblock.L3Raft.Acts

/-!
# Every event is a sequence of acts

The leader's and the snapshot handlers as sequences of acts, and
`handle_acts` for one event of a server. `RisksOk` is what an event has to
meet for the risks a development takes into account.
-/
namespace Fastblock.L3.Raft
namespace Node

variable {inp : Event → Prop} {R : Risks} {n : Node} {env : Env} {md5 : Bytes → Bytes}

/-! ## Client entries -/

theorem acts_writeEntry {e : Entry} {client : Nat} (hi : inp (.write e client))
    (he : e.isCfgChange = false) :
    Acts inp R n (n.writeEntry e client) := by
  unfold writeEntry
  split
  · exact .single (.emit (by simp [Out.Plain, errNotLeader]))
  · rename_i hl
    split
    · exact .single (.emit (by simp [Out.Plain, errPgShutdown]))
    · split
      · exact .single (.emit (by simp [Out.Plain, errPgDeleted]))
      · exact .single (.enqueue hi (by simpa [isLeader] using hl) he)

theorem completeCtx_fields {res : Int} {c : Ctx} :
    (completeCtx res n c).opState = n.opState ∧ (completeCtx res n c).firstIdx = n.firstIdx ∧
      (completeCtx res n c).currentIdx = n.currentIdx ∧ (completeCtx res n c).log = n.log := by
  cases c with
  | client id => simp [completeCtx, emit]
  | rpc =>
    unfold completeCtx finishAe
    cases n.aeCall <;> simp [emit]

theorem completeCtxs_fields {res : Int} {cs : List Ctx} :
    (n.completeCtxs res cs).opState = n.opState ∧ (n.completeCtxs res cs).firstIdx = n.firstIdx ∧
      (n.completeCtxs res cs).currentIdx = n.currentIdx ∧ (n.completeCtxs res cs).log = n.log := by
  induction cs generalizing n with
  | nil => simp [completeCtxs]
  | cons c cs ih =>
    obtain ⟨h1, h2, h3, h4⟩ := @completeCtx_fields n res c
    have h5 := ih (n := completeCtx res n c)
    simp only [completeCtxs, List.foldl_cons] at h5 ⊢
    rw [h1, h2, h3, h4] at h5
    exact h5

theorem writeEntryFinish_fields {first last : Nat} {res : Int} :
    (n.writeEntryFinish first last res).opState = n.opState ∧
      (n.writeEntryFinish first last res).firstIdx = n.firstIdx ∧
      (n.writeEntryFinish first last res).currentIdx = n.currentIdx ∧
      (n.writeEntryFinish first last res).log.cache = (n.log.cache.completeEntryBetween first last).2 := by
  obtain ⟨h1, h2, h3, h4⟩ := @completeCtxs_fields
    { n with log := { n.log with cache := (n.log.cache.completeEntryBetween first last).2 } } res
    (n.log.cache.completeEntryBetween first last).1
  exact ⟨h1, h2, h3, congrArg RaftLog.cache h4⟩

/-- Walking through what was walked through before stays within it. -/
theorem takeThrough_cleared {last : Nat} (f : CacheItem → CacheItem) (hf : ∀ it, (f it).entry = it.entry)
    (c : EntryCache) : EntryCache.takeThrough last ((EntryCache.takeThrough last c).map f ++
      EntryCache.dropThrough last c) = (EntryCache.takeThrough last c).map f := by
  induction c with
  | nil => rfl
  | cons x c ih =>
    by_cases hx : x.entry.idx = last
    · simp [EntryCache.takeThrough, EntryCache.dropThrough, hx, hf]
    · simp [EntryCache.takeThrough, EntryCache.dropThrough, hx, hf, ih]

/-- After `complete_entry_between`, nobody waits for what lies between. -/
theorem completed_seg (c : EntryCache) {first last : Nat} (hle : first ≤ last) :
    ∀ it ∈ EntryCache.takeThrough last ((c.completeEntryBetween first last).2.fromIdx first), it.complete = none := by
  have hfrom : (c.completeEntryBetween first last).2.fromIdx first =
      (EntryCache.takeThrough last (c.fromIdx first)).map (fun it => { it with complete := none }) ++
        EntryCache.dropThrough last (c.fromIdx first) := by
    unfold EntryCache.completeEntryBetween
    rw [if_neg (by omega)]
    dsimp only
    have hbefore : ∀ it ∈ c.beforeIdx first, (!EntryCache.isAt first it) = true := fun it hit =>
      List.all_eq_true.mp List.all_takeWhile it hit
    rw [List.append_assoc]
    unfold EntryCache.fromIdx
    rw [List.dropWhile_append_of_pos hbefore]
    cases hd : c.dropWhile fun it => !EntryCache.isAt first it with
    | nil => rfl
    | cons x d =>
      -- the walk starts at an item that the map points at
      have hx : (!EntryCache.isAt first x) = false := by
        have := List.head?_dropWhile_not (fun it => !EntryCache.isAt first it) c
        rw [hd] at this
        simpa using this
      have hx' : (!EntryCache.isAt first { x with complete := none }) = false := hx
      unfold EntryCache.takeThrough
      split <;> simp [hx']
  rw [hfrom, takeThrough_cleared (fun it => { it with complete := none }) fun _ => rfl]
  intro it hit
  obtain ⟨x, -, rfl⟩ := List.mem_map.mp hit
  rfl

theorem acts_stopFlush {st : Int} (ho : n.Stopped) (hs : st ≠ 0) : Acts inp R n (n.stopFlush st) := by
  unfold stopFlush
  dsimp only
  split
  · exact .single (.clearQueue hs)
  · have h1 : Acts inp R n (n.writeEntryFinish (n.currentIdx + 1) n.log.cache.getLastCacheEntry st) :=
      .single (.finishErr ho hs)
    obtain ⟨hop, -, hcur, hcache⟩ := @writeEntryFinish_fields n (n.currentIdx + 1) n.log.cache.getLastCacheEntry st
    have ho' : (n.writeEntryFinish (n.currentIdx + 1) n.log.cache.getLastCacheEntry st).Stopped := by
      simpa [Stopped, hop] using ho
    have hdone : n.currentIdx + 1 ≤ n.log.cache.getLastCacheEntry → ∀ it ∈ EntryCache.takeThrough
        n.log.cache.getLastCacheEntry ((n.writeEntryFinish (n.currentIdx + 1) n.log.cache.getLastCacheEntry
          st).log.cache.fromIdx (n.currentIdx + 1)), it.complete = none := fun hle => by
      rw [hcache]
      exact completed_seg _ hle
    refine (h1.tail (.removeCache ho' (.inr (by omega)) ?_)).tail (.clearQueue hs)
    rw [hcur]
    exact hdone

theorem acts_stop (hi : inp .stop) : Acts inp R n n.stop := by
  unfold stop stopProcessingEntrys
  have h1 : Acts inp R n { n with opState := .down } := .single (.stopState hi)
  have h2 : Acts inp R n (({ n with opState := .down } : Node).writeEntryFinish n.firstIdx n.currentIdx
    errPgShutdown) := h1.tail (.finishErr (.inl rfl) (by simp [errPgShutdown]))
  obtain ⟨hop, hfirst, hcur, hcache⟩ := @writeEntryFinish_fields { n with opState := .down } n.firstIdx n.currentIdx
    errPgShutdown
  have h3 := h2.tail (.removeCache (.inl hop) (.inl ⟨hi, rfl, rfl⟩) fun hle => by
    rw [hfirst, hcur] at hle ⊢
    rw [hcache]
    exact completed_seg _ hle)
  exact h3.trans (acts_stopFlush (.inl hop) (by simp [errPgShutdown]))

/-! ## Replication -/

/-- An appendentries message of the leader with entries from the cache. -/
def CacheAe (n : Node) (o : Out) : Prop :=
  ∃ dst hb next k, (k ≤ 1 ∨ ¬n.Stopped) ∧ o = .send (.appendEntries dst hb
    { n.createAppendentries next with entries := n.log.cache.getNum next k })

theorem acts_sendAes {os : List Out} (hl : n.identity = .leader) (h : ∀ o ∈ os, n.CacheAe o) :
    Acts inp R n (n.emit os) := by
  induction os generalizing n with
  | nil => exact acts_misc (by constructor <;> simp [emit])
  | cons o os ih =>
    have h1 : Acts inp R n (n.emit [o]) := by
      obtain ⟨dst, hb, next, k, hk, rfl⟩ := h o List.mem_cons_self
      exact .single (.sendAe hl hk)
    have h2 := ih (n := n.emit [o]) hl fun o' ho' => h o' (List.mem_cons_of_mem _ ho')
    have he : (n.emit [o]).emit os = n.emit (o :: os) := by simp [emit]
    exact he ▸ h1.trans h2

theorem flushPeer_mark {p : RaftNode} : (n.flushPeer env p).mark = p.mark := by
  unfold flushPeer
  split <;> rfl

/-- The messages of a batch leave once it is in the log. -/
theorem acts_flushBatch {last : Nat} (hl : n.identity = .leader) (ho : ¬n.Stopped)
    (hk : last = n.log.cache.getLastCacheEntry) (hg : (n.log.cache.get (n.currentIdx + 1)).isSome = true) :
    Acts inp R n.batched (n.flushBatch env last) := by
  obtain ⟨e, he⟩ := Option.isSome_iff_exists.mp hg
  subst hk
  unfold flushBatch
  simp only [he]
  have h2 : Acts inp R n.batched ((n.batched.mapNodes (n.batched.flushPeer env)).setElectionTimer env.now) :=
    (acts_misc (mapNodes_same _ fun _ => flushPeer_mark)).trans acts_setElectionTimer
  refine h2.trans (acts_sendAes hl fun o ho' => ?_)
  obtain ⟨p, -, hp⟩ := List.mem_flatMap.mp ho'
  unfold appendOut at hp
  split at hp
  · exact ⟨p.id, false, n.currentIdx + 1, _, .inr ho, List.mem_singleton.mp hp⟩
  · cases hp

theorem flushBatch_none {last : Nat} (hg : n.log.cache.get (n.currentIdx + 1) = none) : n.flushBatch env last = n := by
  unfold flushBatch
  simp only [hg]

theorem acts_flush (hl : n.identity = .leader) (hc : n.currentIdx ≤ n.commitIdx) (hR : R.flush n) :
    Acts inp R n (n.flush env) := by
  unfold flush
  have hlt : n.isLeader = true := by simp [isLeader, hl]
  split
  · simp_all
  · split
    · rename_i ho
      exact acts_stopFlush (.inl ho) (by simp [errPgShutdown])
    · split
      · rename_i ho
        exact acts_stopFlush (.inr ho) (by simp [errPgDeleted])
      · rename_i ho1 ho2
        have ho : ¬n.Stopped := fun h => h.elim ho1 ho2
        dsimp only
        split
        · rename_i hk
          split
          · exact .refl
          · split
            · rename_i hb
              exact .single (.flushQueue hl ho hk hc hR (hb.imp_right .inl))
            · cases hg : n.log.entryQueueFlush.2.cache.get (n.currentIdx + 1) with
              | none =>
                rw [flushBatch_none hg]
                exact .single (.flushQueue hl ho hk hc hR (.inr (.inr hg)))
              | some e =>
                have hg : (n.log.entryQueueFlush.2.cache.get (n.currentIdx + 1)).isSome = true := by simp [hg]
                exact .head (.flush hl ho hk hc hR hg) (acts_flushBatch hl ho rfl hg)
        · cases hg : n.log.cache.get (n.currentIdx + 1) with
          | none =>
            rw [flushBatch_none hg]
          | some e =>
            have hg : (n.log.cache.get (n.currentIdx + 1)).isSome = true := by simp [hg]
            exact .head (.batch hl ho hg) (acts_flushBatch hl ho rfl hg)

theorem acts_raftTask (hR : n.identity = .leader → R.flush n) : Acts inp R n (n.raftTask env) := by
  unfold raftTask
  split
  · exact .refl
  · rename_i hl
    have hl : n.identity = .leader := by simpa [isLeader] using hl
    split
    · exact .refl
    · exact acts_flush hl (by omega) (hR hl)

theorem acts_dispatchHeartbeats : Acts inp R n (n.dispatchHeartbeats env) := by
  unfold dispatchHeartbeats
  split
  · exact .refl
  · rename_i hl
    have hl : n.identity = .leader := by simpa [isLeader] using hl
    dsimp only
    let f : RaftNode → RaftNode := fun p =>
      if n.heartbeatDue env p then { p with appendTime := env.now } else p
    have hf : ∀ p, (f p).mark = p.mark := fun p => by
      simp only [f]; split <;> rfl
    have h1 : Acts inp R n (n.mapNodes f) := acts_misc (mapNodes_same f hf)
    refine (h1.trans (acts_misc (m := { (n.mapNodes f) with
      electionTimer := if (n.allNodes.filter (n.heartbeatDue env)).isEmpty then n.electionTimer else env.now })
      (by constructor <;> rfl))).trans (acts_sendAes hl fun o ho' => ?_)
    obtain ⟨p, -, hp⟩ := List.mem_flatMap.mp ho'
    refine ⟨p.id, true, p.nextIdx, 0, .inl (by omega), ?_⟩
    unfold heartbeatOut at hp
    split at hp
    · split at hp
      · cases hp
      · exact List.mem_singleton.mp hp
    · exact List.mem_singleton.mp hp

/-! ## Replies and recovery -/

theorem find?_map_id {l : List RaftNode} {i : Nat} {f : RaftNode → RaftNode} (hf : ∀ p, (f p).id = p.id) :
    (l.map fun p => if p.id = i then f p else p).find? (·.id = i) = (l.find? (·.id = i)).map f := by
  induction l with
  | nil => rfl
  | cons p l ih =>
    by_cases h : p.id = i
    · simp [h, hf]
    · simp [h] at ih ⊢
      exact ih

theorem getNode_updNode {i : Nat} {f : RaftNode → RaftNode} (hf : ∀ p, (f p).id = p.id) :
    (n.updNode i f).getNode i = (n.getNode i).map f := by
  simp only [getNode, updNode, mapNodes, find?_map_id hf]
  cases n.nodes.find? (·.id = i) <;> rfl

theorem getNode_id {i : Nat} {p : RaftNode} (h : n.getNode i = some p) : p.id = i := by
  simp only [getNode, Option.or_eq_some_iff] at h
  rcases h with h | ⟨-, h⟩ <;> simpa using List.find?_some h

theorem acts_sendCache {node next k : Nat} (hl : n.identity = .leader) (ho : k ≤ 1 ∨ ¬n.Stopped)
    (hp : ∀ p, n.getNode node = some p → p.nextIdx = next) :
    Acts inp R n (n.sendRecoveryEntries env node (n.log.cache.getNum next k)) := by
  unfold sendRecoveryEntries
  cases hg : n.getNode node with
  | none => exact .refl
  | some p =>
    have h1 : Acts inp R n (n.updNode node (appendSent · env)) := acts_updNode fun _ => rfl
    refine (h1.trans (acts_sendAes hl fun o ho' => ?_)).trans acts_setElectionTimer
    unfold appendOut at ho'
    split at ho'
    · exact ⟨node, false, p.nextIdx, k, ho, by rw [List.mem_singleton.mp ho', hp p hg]; rfl⟩
    · cases ho'

theorem acts_recoveryBySnapshot {node : Nat} : Acts inp R n (n.recoveryBySnapshot node) := by
  have h1 : Acts inp R n (n.updNode node fun p => { p with suppressHeartbeats := true }) :=
    acts_updNode fun _ => rfl
  have h2 := h1.trans (acts_misc (m := { (n.updNode node fun p => { p with suppressHeartbeats := true }) with
    snapshotInProgress := true, obr := some ⟨[], 0⟩ }) (by constructor <;> rfl))
  exact h2.tail (.addWork (p := .snapCreate node) trivial)

theorem acts_doRecovery {p : RaftNode} (hl : n.identity = .leader) (ho : ¬n.Stopped)
    (hp : ∀ q, n.getNode p.id = some q → q.nextIdx = p.nextIdx) :
    Acts inp R n (n.doRecovery env p) := by
  rcases n.doRecovery_cases env p with hsnap | ⟨k, hsend⟩ | ⟨last, es, hd, hread⟩
  · rw [hsnap]
    exact acts_recoveryBySnapshot
  · rw [hsend]
    exact acts_sendCache hl (.inr ho) hp
  · rw [hread]
    exact .single (.addRead hd hl)

theorem acts_dispatchRecovery {node : Nat} : Acts inp R n (n.dispatchRecovery env node) := by
  unfold dispatchRecovery
  cases hg : n.getNode node with
  | none => exact .refl
  | some p =>
    have hoff : ∀ b, Acts inp R n (n.updNode node fun p => { p with recovering := b }) :=
      fun _ => acts_updNode fun _ => rfl
    dsimp only
    split
    · exact hoff false
    · rename_i hl
      have hl : n.identity = .leader := by simpa [isLeader] using hl
      split
      · exact hoff false
      · rename_i ho
        split
        · exact hoff false
        · refine (hoff true).trans (acts_doRecovery hl ?_ fun q hq => ?_)
          · simpa [Stopped, updNode, mapNodes] using ho
          · rw [getNode_id hg, getNode_updNode (f := fun p => { p with recovering := true }) fun _ => rfl,
              hg] at hq
            cases hq
            rfl

/-- The index an error reply of the peer is counted for. -/
def errPoint (n : Node) (hb : Bool) (r : AppendEntriesReply) : Option Nat :=
  match n.getNode r.nodeId with
  | none => none
  | some p =>
    match (replyDecide n.isLeader n.currentTerm p r hb).2 with
    | .respond _ | .stepDown =>
      if p.recovering = false ∧ n.commitIdx < p.endIdx then some p.endIdx else none
    | _ => none

/-- The risk of counting an error as a vote for the commit is met. -/
def ErrOk (R : Risks) (n : Node) (hb : Bool) (r : AppendEntriesReply) : Prop :=
  ∀ i, n.errPoint hb r = some i → ∀ m : Node, m.nodeId = n.nodeId → m.commitIdx = n.commitIdx →
    m.nodes.map RaftNode.key = n.nodes.map RaftNode.key →
    m.newNodes.map RaftNode.key = n.newNodes.map RaftNode.key →
    ∀ res : Int, res ≠ 0 → R.errVote m res i r.nodeId

theorem isPeerError_ne_zero {x : Int} (h : isPeerError x = true) : x ≠ 0 := by
  rintro rfl
  simp [isPeerError, errNotFoundPg, errNoSpc, errShutdown, errPgShutdown, errPgInitializing, errPgDeleted] at h

theorem isPeerError_one : isPeerError 1 = false := rfl

/-- What the decision on a reply says about the peer record and the
action. -/
structure ReplySpec (isL : Bool) (t : Nat) (p : RaftNode) (r : AppendEntriesReply)
    (d : RaftNode × ReplyAct) : Prop where
  id : d.1.id = p.id
  endIdx : d.1.endIdx = p.endIdx
  recovering : d.1.recovering = p.recovering
  voteForMe : d.1.voteForMe = p.voteForMe
  /-- only a success of the leader's own term moves the match index -/
  matchIdx : d.1.matchIdx = p.matchIdx ∨
    ((isL = true ∧ r.term = t ∧ r.success = 1) ∧ d.1.matchIdx = r.currentIdx)
  respond : ∀ x, d.2 = .respond x → x ≠ 0 ∧ ¬(isL = true ∧ r.term = t ∧ r.success = 1)
  stepDown : d.2 = .stepDown → t < r.term
  commit : d.2 = .commit → isL = true ∧ r.success = 1 ∧ r.term = t

theorem replyDecide_spec {isL : Bool} {t : Nat} {p : RaftNode} {r : AppendEntriesReply} {hb : Bool} :
    ReplySpec isL t p r (replyDecide isL t p r hb) := by
  unfold replyDecide
  refine iteInduction (fun _ => ?_) fun hl => iteInduction (fun he => ?_) fun _ =>
    iteInduction (fun hlt => ?_) fun _ => iteInduction (fun _ => ?_) fun ht =>
    iteInduction (fun _ => ?_) fun _ => iteInduction (fun _ => ?_) fun _ =>
    iteInduction (fun hne => ?_) fun h01 => iteInduction (fun h0 => iteInduction (fun _ => ?_) fun _ => ?_) fun h0 =>
    iteInduction (fun _ => ?_) fun _ => iteInduction (fun _ => ?_) fun _ => ?_
  · exact ⟨rfl, rfl, rfl, rfl, .inl rfl, by rintro x ⟨⟩; simp_all [errNotLeader], by simp, by simp⟩
  · refine ⟨rfl, rfl, rfl, rfl, .inl rfl, ?_, by simp, by simp⟩
    rintro x ⟨⟩
    exact ⟨isPeerError_ne_zero he, fun h => by simp [h.2.2, isPeerError_one] at he⟩
  · exact ⟨rfl, rfl, rfl, rfl, .inl rfl, by simp, fun _ => hlt, by simp⟩
  · exact ⟨rfl, rfl, rfl, rfl, .inl rfl, by simp, by simp, by simp⟩
  · exact ⟨rfl, rfl, rfl, rfl, .inl rfl, by dsimp only; split <;> simp, by dsimp only; split <;> simp,
      by dsimp only; split <;> simp⟩
  · exact ⟨rfl, rfl, rfl, rfl, .inl rfl, by simp, by simp, by simp⟩
  · exact ⟨rfl, rfl, rfl, rfl, .inl rfl, by rintro x ⟨⟩; exact ⟨hne.2, fun h => hne.1 h.2.2⟩, by simp, by simp⟩
  · exact ⟨by dsimp only; split_ifs <;> rfl, by dsimp only; split_ifs <;> rfl, by dsimp only; split_ifs <;> rfl,
      by dsimp only; split_ifs <;> rfl, .inl (by dsimp only; split_ifs <;> rfl), by simp, by simp, by simp⟩
  · exact ⟨rfl, rfl, rfl, rfl, .inl rfl, by dsimp only; split <;> simp_all [errUnknown],
      by dsimp only; split <;> simp, by dsimp only; split <;> simp⟩
  · exact ⟨rfl, rfl, rfl, rfl, .inl rfl, by simp, by simp, by simp⟩
  · exact ⟨rfl, rfl, rfl, rfl, .inl rfl, by simp, by simp, by simp⟩
  · have hs : r.success = 1 := by tauto
    have hl : isL = true := by simpa using hl
    have ht : r.term = t := (not_not.mp ht).symm
    exact ⟨rfl, rfl, rfl, rfl, .inr ⟨⟨hl, ht, hs⟩, rfl⟩, by dsimp only; split_ifs <;> simp,
      by dsimp only; split_ifs <;> simp, fun _ => ⟨hl, hs, ht⟩⟩

/-- An error moves no match index. -/
theorem replyDecide_keys {isL : Bool} {t : Nat} {p : RaftNode} {r : AppendEntriesReply} {hb : Bool}
    (h : (replyDecide isL t p r hb).2.Errs) (q : RaftNode) : (replyDecide isL t q r hb).1.key = q.key := by
  have hno : ¬(isL = true ∧ r.term = t ∧ r.success = 1) := by
    rcases h with ⟨x, hx⟩ | hx
    · exact (replyDecide_spec.respond x hx).2
    · have := replyDecide_spec.stepDown hx
      omega
  have hspec : ReplySpec isL t q r (replyDecide isL t q r hb) := replyDecide_spec
  simp only [RaftNode.key, hspec.id, hspec.voteForMe, hspec.matchIdx.resolve_right fun h => hno h.1]

/-- An error is answered for the end index of the peer. -/
theorem errPoint_eq {p : RaftNode} {r : AppendEntriesReply} {hb : Bool} (hg : n.getNode r.nodeId = some p)
    (h : (replyDecide n.isLeader n.currentTerm p r hb).2.Errs)
    (hrec : (replyDecide n.isLeader n.currentTerm p r hb).1.recovering = false)
    (hlt : n.commitIdx < (replyDecide n.isLeader n.currentTerm p r hb).1.endIdx) :
    n.errPoint hb r = some (replyDecide n.isLeader n.currentTerm p r hb).1.endIdx := by
  have hspec : ReplySpec n.isLeader n.currentTerm p r (replyDecide n.isLeader n.currentTerm p r hb) := replyDecide_spec
  rw [hspec.endIdx] at hlt ⊢
  rw [hspec.recovering] at hrec
  rcases h with ⟨x, hx⟩ | hx <;> simp [errPoint, hg, hx, hrec, hlt]

theorem acts_processResponse {result : Int} {point : Nat} {p : RaftNode}
    (hi : ∃ dst hb r, inp (.recv (.appendEntriesReply dst hb r)) ∧ r.nodeId = p.id)
    (hl : result = 0 → n.identity = .leader)
    (hR : result ≠ 0 → p.recovering = false → n.commitIdx < point → R.errVote n result point p.id) :
    Acts inp R n (n.processResponse result point p) := by
  unfold processResponse
  split
  · exact acts_updNode fun _ => rfl
  · rename_i hrec
    split
    · rename_i h
      refine .single (.commit hi hl h.2.2 fun hne => hR hne ?_ h.2.1)
      simpa [hne] using hrec
    · exact .refl

theorem map_key_updNode {l : List RaftNode} {i : Nat} {f : RaftNode → RaftNode}
    (hf : ∀ p ∈ l, p.id = i → (f p).key = p.key) :
    (l.map fun p => if p.id = i then f p else p).map RaftNode.key = l.map RaftNode.key := by
  rw [List.map_map]
  refine List.map_congr_left fun p hp => ?_
  by_cases h : p.id = i
  · simp [h, hf p hp h]
  · simp [h]

theorem stepDownTo_keeps {t : Nat} :
    (n.stepDownTo env t).nodeId = n.nodeId ∧ (n.stepDownTo env t).commitIdx = n.commitIdx ∧
      (n.stepDownTo env t).nodes = n.nodes ∧ (n.stepDownTo env t).newNodes = n.newNodes := by
  unfold stepDownTo setCurrentTerm
  split <;> simp [becomeFollower, setLeader, setElectionTimer, randomizeElectionTimeout]

theorem acts_processAppendentriesReply {dst : Nat} {hb : Bool} {r : AppendEntriesReply}
    (hi : inp (.recv (.appendEntriesReply dst hb r))) (hR : ErrOk R n hb r)
    (hN : n.NextOk R hb r) :
    Acts inp R n (n.processAppendentriesReply env hb r) := by
  unfold processAppendentriesReply
  cases hg : n.getNode r.nodeId with
  | none => exact .refl
  | some p =>
    have hspec : ∀ p, ReplySpec n.isLeader n.currentTerm p r (replyDecide n.isLeader n.currentTerm p r hb) :=
      fun _ => replyDecide_spec
    have h1 : Acts inp R n (n.updNode r.nodeId fun p => (replyDecide n.isLeader n.currentTerm p r hb).1) :=
      .single (.replyPeer hi hN)
    have hid : (replyDecide n.isLeader n.currentTerm p r hb).1.id = r.nodeId := by
      rw [(hspec p).id, getNode_id hg]
    have hfrom : ∃ dst hb' r', inp (.recv (.appendEntriesReply dst hb' r')) ∧
        r'.nodeId = (replyDecide n.isLeader n.currentTerm p r hb).1.id := ⟨dst, hb, r, hi, hid.symm⟩
    -- an error is answered with the match indices as they were
    have herr : ∀ m : Node, m.nodeId = n.nodeId → m.commitIdx = n.commitIdx →
        m.nodes.map RaftNode.key = n.nodes.map RaftNode.key →
        m.newNodes.map RaftNode.key = n.newNodes.map RaftNode.key →
        (replyDecide n.isLeader n.currentTerm p r hb).2.Errs →
        ∀ res : Int, res ≠ 0 → (replyDecide n.isLeader n.currentTerm p r hb).1.recovering = false →
        m.commitIdx < (replyDecide n.isLeader n.currentTerm p r hb).1.endIdx →
        R.errVote m res (replyDecide n.isLeader n.currentTerm p r hb).1.endIdx
          (replyDecide n.isLeader n.currentTerm p r hb).1.id := by
      intro m h1 h2 h3 h4 hact res hres hrec hlt
      rw [hid]
      exact hR _ (errPoint_eq hg hact hrec (h2 ▸ hlt)) m h1 h2 h3 h4 res hres
    dsimp only
    split
    · exact h1
    · exact h1
    · rename_i x hx
      have he : (replyDecide n.isLeader n.currentTerm p r hb).2.Errs := .inl ⟨x, hx⟩
      refine h1.trans (acts_processResponse hfrom (fun h => absurd h ((hspec p).respond x hx).1) fun hne hrec hlt =>
        ?_)
      exact herr (n.updNode r.nodeId _) rfl rfl (map_key_updNode fun q _ _ => replyDecide_keys he q)
        (map_key_updNode fun q _ _ => replyDecide_keys he q) he x hne hrec hlt
    · rename_i hx
      have he : (replyDecide n.isLeader n.currentTerm p r hb).2.Errs := .inr hx
      refine (h1.trans acts_stepDownTo).trans
        (acts_processResponse hfrom (by simp [errNotLeader]) fun hne hrec hlt => ?_)
      refine herr ((n.updNode r.nodeId _).stepDownTo env r.term) (stepDownTo_keeps.1.trans rfl)
        (stepDownTo_keeps.2.1.trans rfl) ?_ ?_ he _ hne hrec hlt
      · rw [stepDownTo_keeps.2.2.1]
        exact map_key_updNode fun q _ _ => replyDecide_keys he q
      · rw [stepDownTo_keeps.2.2.2]
        exact map_key_updNode fun q _ _ => replyDecide_keys he q
    · exact h1.trans acts_dispatchRecovery
    · rename_i hx
      have hl := ((hspec p).commit hx).1
      exact h1.trans (acts_processResponse hfrom (fun _ => by simpa [isLeader, updNode, mapNodes] using hl)
        fun h => absurd rfl h)

/-! ## Applying -/

theorem acts_saveLastApply : Acts inp R n (n.saveLastApply env) := by
  unfold saveLastApply
  split
  · exact (acts_misc (m := { n with lastSaveIndex := n.lastApplied, lastSaveTime := env.now })
      (by constructor <;> rfl)).tail .saveApplied
  · exact .refl

theorem acts_raftApplyEntry : Acts inp R n (n.raftApplyEntry env) := by
  unfold raftApplyEntry
  split
  · exact .refl
  · have h0 : Acts inp R n (n.saveLastApply env) := acts_saveLastApply
    refine h0.trans ?_
    clear h0
    generalize n.saveLastApply env = n
    dsimp only
    split
    · exact .refl
    · rename_i hne
      split
      · exact .refl
      · rename_i hp
        have hp : n.applyInProgress = false := by simpa using hp
        cases he : n.log.cache.get (n.lastApplied + 1) with
        | some e => exact .single (.applyStart hne hp he)
        | none =>
          cases hd : n.log.disk.read (n.lastApplied + 1) (n.lastApplied + 1) with
          | none => exact acts_misc (by constructor <;> first | rfl | exact hp.symm)
          | some es => exact .single (.applyRead hne hp he hd)

/-! ## Snapshots -/

theorem acts_snapFailed {node : Nat} : Acts inp R n (n.snapFailed node) :=
  (acts_misc (m := { n with obr := none }) (by constructor <;> rfl)).trans (acts_updNode fun _ => rfl)

theorem acts_sendSnapshotCheck {node : Nat} {failed : Node} (hf : Acts inp R n failed) :
    Acts inp R n (n.sendSnapshotCheck env node failed) := by
  unfold sendSnapshotCheck
  split
  · exact .refl
  · split
    · exact .single (.emit trivial)
    · exact hf

theorem acts_recoveryDelete {node : Nat} {b : Bool} : Acts inp R n (n.recoveryDelete node b) :=
  .single (.addWork (p := .snapDelete node b) trivial)

theorem acts_snapCreated {node : Nat} {names : List String} {res : Int} :
    Acts inp R n (n.snapCreated env node names res) := by
  unfold snapCreated
  have h1 : Acts inp R n { n with snapshotInProgress := false } := acts_misc (by constructor <;> rfl)
  dsimp only
  split
  · exact h1.trans acts_snapFailed
  · have h2 := h1.tail .snapIdx
    split
    · exact h2.trans acts_snapFailed
    · rename_i t _
      refine (h2.trans (acts_misc (m := { n with
        snapshotInProgress := false
        snapshotIndex := n.lastApplied
        snapshotTerm := t
        obr := n.obr.map fun _ => ⟨names, 0⟩ }) (by constructor <;> rfl))).trans
        (acts_sendSnapshotCheck acts_snapFailed)

theorem acts_processSnapshotCheckReply {r : SnapshotCheckReply} :
    Acts inp R n (n.processSnapshotCheckReply env r) := by
  unfold processSnapshotCheckReply
  split
  · exact .refl
  · rename_i p _
    split
    · exact acts_snapFailed
    · split
      · exact acts_stepDownTo.trans acts_snapFailed
      · split
        · exact acts_snapFailed
        · split
          · exact acts_misc (by constructor <;> rfl)
          · split
            · exact acts_snapFailed
            · have h1 : Acts inp R n (n.updNode p.id fun p => p.setLease r.lease) := acts_updNode fun _ => rfl
              dsimp only
              split
              · exact h1
              · refine (h1.trans (acts_misc (m := { (n.updNode p.id fun p => p.setLease r.lease) with
                  obr := n.obr.map fun o => { o with iter := o.iter + r.objects.length } })
                  (by constructor <;> rfl))).tail (.addWork (p := .snapRead p.id r.objects) trivial)

theorem acts_snapReadDone {node : Nat} {checks : List (ObjectCheck × Bytes)} {res : Int} :
    Acts inp R n (n.snapReadDone md5 env node checks res) := by
  unfold snapReadDone
  split
  · exact acts_snapFailed
  · split
    · exact acts_snapFailed
    · rename_i hl
      have hl : n.identity = .leader := by simpa [isLeader] using hl
      unfold sendSnapshot
      split
      · exact .refl
      · dsimp only
        split
        · split
          · exact acts_snapFailed
          · exact acts_sendSnapshotCheck acts_snapFailed
        · split
          · exact .single (.sendInstall hl rfl rfl)
          · exact acts_snapFailed

theorem acts_snapDeleted {node : Nat} {b : Bool} : Acts inp R n (n.snapDeleted env node b) := by
  unfold snapDeleted
  split
  · refine Relation.ReflTransGen.trans ?_ acts_dispatchRecovery
    exact (acts_misc (m := { n with obr := none }) (by constructor <;> rfl)).trans (acts_updNode fun _ => rfl)
  · exact acts_snapFailed

/-- The risk of a next index that follows the snapshot is met. -/
def SnapNextOk (R : Risks) (n : Node) (r : InstallSnapshotReply) : Prop :=
  n.isLeader = true → n.currentTerm = r.term → r.success = 1 →
    ∀ m : Node, m.log = n.log → R.next m n.snapshotIndex

theorem acts_processInstallsnapshotReply {dst : Nat} {r : InstallSnapshotReply}
    (hi : inp (.recv (.installSnapshotReply dst r))) (hR : SnapNextOk R n r) :
    Acts inp R n (n.processInstallsnapshotReply env r) := by
  unfold processInstallsnapshotReply
  split
  · rename_i p o hg _
    split
    · exact acts_recoveryDelete
    · rename_i hl
      have hl : n.identity = .leader := by simpa [isLeader] using hl
      split
      · exact acts_stepDownTo.trans acts_recoveryDelete
      · split
        · exact acts_recoveryDelete
        · rename_i ht
          split
          · exact acts_recoveryDelete
          · rename_i hs
            have h1 : Acts inp R n (n.updNode p.id fun p => p.setLease r.lease) := acts_updNode fun _ => rfl
            dsimp only
            split
            · refine Relation.ReflTransGen.trans (h1.tail ?_) acts_recoveryDelete
              rw [getNode_id hg]
              refine .snapMatch hi hl (not_not.mp ht).symm (not_not.mp hs) (fun p => ?_) ?_
              · simp [RaftNode.mark, RaftNode.key, RaftNode.setNextIdx, updNode, mapNodes]
              · exact hR (by simpa [isLeader] using hl) (not_not.mp ht) (not_not.mp hs) _ rfl
            · exact h1.trans (acts_sendSnapshotCheck acts_recoveryDelete)
  · exact .refl

theorem acts_handleSnapCheckTask {node : Nat} : Acts inp R n (n.handleSnapCheckTask env node) := by
  unfold handleSnapCheckTask
  have h1 : Acts inp R n { n with obr := none } := acts_misc (by constructor <;> rfl)
  split
  · exact h1
  · exact acts_sendSnapshotCheck (h1.trans (acts_updNode fun _ => rfl))

theorem acts_taskLoop : Acts inp R n (n.taskLoop env) := by
  unfold taskLoop
  have key : ∀ (ts : List Nat) (m : Node),
      Acts inp R m (ts.foldl (fun n t => n.handleSnapCheckTask env t) m) := by
    intro ts
    induction ts with
    | nil => exact fun m => .refl
    | cons t ts ih => exact fun m => acts_handleSnapCheckTask.trans (ih _)
  exact (acts_misc (m := { n with tasks := [] }) (by constructor <;> rfl)).trans (key _ _)

theorem acts_raftPeriodic (hR : n.startsElection env = true → LeadOk R n.asCandidate) :
    Acts inp R n (n.raftPeriodic env) := by
  unfold raftPeriodic
  split
  · exact .refl
  · exact (acts_periodicElection hR).trans acts_taskLoop

theorem setCurrentTerm_identity {t : Nat} : (n.setCurrentTerm t).identity = n.identity := by
  unfold setCurrentTerm
  split <;> rfl

theorem acts_followSnapshot {src t : Nat} : Acts inp R n (n.followSnapshot env src t) := by
  unfold followSnapshot
  dsimp only
  split
  · rename_i hf
    have hf : n.identity = .follower := by
      simpa [isFollower, setCurrentTerm_identity] using hf
    exact (acts_setCurrentTerm (.inl hf)).trans acts_setLeader
  · exact acts_followTerm.trans acts_setLeader

theorem acts_recvSnapshotCheck {dst : Nat} {m : SnapshotCheck} (hi : inp (.recv (.snapshotCheck dst m))) :
    Acts inp R n (n.recvSnapshotCheck env m) := by
  unfold recvSnapshotCheck
  split
  · exact .single (.answer (.inl ⟨dst, m, hi⟩))
  · split
    · exact acts_setElectionTimer
    · dsimp only
      split
      · exact acts_followSnapshot.tail (.addCheck ⟨dst, m, hi⟩)
      · exact acts_followSnapshot.tail (.answer (.inl ⟨dst, m, hi⟩))

/-- The disk log is not trimmed before the indices of a snapshot are set. -/
def NoTrim (n : Node) : Prop := n.log.disk.trimBack n.log.disk.lowestIndex n.log.disk.highestIndex = none

instance (n : Node) : Decidable n.NoTrim := inferInstanceAs (Decidable (_ = _))

/-- The risk of a snapshot index is met if it is taken over now. -/
def InstOk (R : Risks) (n : Node) (i : Nat) : Prop :=
  n.NoTrim →
    ∀ m : Node, m.log = n.log → m.commitIdx = n.commitIdx → m.currentIdx = n.currentIdx →
      m.lastApplied = n.lastApplied → R.install m i

theorem acts_snapWriteDone {src i : Nat} {done : Bool} {r : InstallSnapshotReply} {res : Int}
    (he : EndsInstall inp i) (hi : done = true → InstallIdx inp n i) (hR : done = true → InstOk R n i) :
    Acts inp R n (n.snapWriteDone env src done i r res) := by
  unfold snapWriteDone
  have h1 : Acts inp R n (n.setElectionTimer env.now) := acts_setElectionTimer
  cases done with
  | false => exact h1.tail (.answer ⟨i, he⟩)
  | true =>
    have hi : InstallIdx inp (n.setElectionTimer env.now) i := hi rfl
    dsimp only
    split
    · split
      · rename_i hd
        exact h1.tail (.install he hi (hR rfl hd _ rfl rfl rfl rfl))
      · rename_i hd
        exact h1.tail (.dropDisk he hi hd)
    · exact h1.tail (.answer ⟨i, he⟩)

theorem followSnapshot_keeps {src t : Nat} : (n.followSnapshot env src t).log = n.log ∧
    (n.followSnapshot env src t).commitIdx = n.commitIdx ∧
    (n.followSnapshot env src t).currentIdx = n.currentIdx ∧
    (n.followSnapshot env src t).lastApplied = n.lastApplied ∧
    t ≤ (n.followSnapshot env src t).currentTerm := by
  unfold followSnapshot setCurrentTerm
  split <;> dsimp only <;> split <;>
    simp [becomeFollower, setLeader, setElectionTimer, randomizeElectionTimeout] <;> omega

theorem acts_recvInstallsnapshot {dst : Nat} {m : InstallSnapshot} (hi : inp (.recv (.installSnapshot dst m)))
    (hR : n.opState = .active → n.currentTerm ≤ m.term → m.done = true → m.objects = [] → InstOk R n m.lastIdx) :
    Acts inp R n (n.recvInstallsnapshot env m) := by
  unfold recvInstallsnapshot
  split
  · exact .single (.answer ⟨m.lastIdx, .inl ⟨dst, m, hi, rfl⟩⟩)
  · rename_i hop
    split
    · exact acts_setElectionTimer
    · rename_i hterm
      obtain ⟨h1, h2, h3, h4, h5⟩ := @followSnapshot_keeps n env m.nodeId m.term
      have hf : Acts inp R n (n.followSnapshot env m.nodeId m.term) := acts_followSnapshot
      have hidx : m.done = true → InstallIdx inp (n.followSnapshot env m.nodeId m.term) m.lastIdx :=
        fun hd => .inl ⟨dst, m, hi, hd, rfl, h5⟩
      generalize n.followSnapshot env m.nodeId m.term = n' at *
      dsimp only
      split
      · rename_i ho
        refine hf.trans (acts_snapWriteDone (.inl ⟨dst, m, hi, rfl⟩) hidx fun hd htr k hk1 hk2 hk3 hk4 => ?_)
        have hR := hR (toErrno_eq_zero.mp (not_not.mp hop)) (Nat.le_of_not_lt hterm) hd (by simpa using ho)
        rw [NoTrim, h1] at htr
        rw [h1] at hk1
        exact hR htr k hk1 (hk2.trans h2) (hk3.trans h3) (hk4.trans h4)
      · exact hf.tail (.addInstall ⟨dst, m, hi⟩ hidx)

/-! ## One event -/

/-- What an event has to meet for the risks taken into account. -/
def RisksOk (R : Risks) (n : Node) (env : Env) : Event → Prop
  | .recv (.requestVoteReply _ r) =>
    n.isCandidate = true → n.prevote = r.prevote → n.currentTerm = r.term → r.voteGranted = .granted →
      LeadOk R (n.withVote r.nodeId)
  | .recv (.appendEntries _ _ ae) =>
    n.opState = .active → n.aeCall = none → n.currentTerm ≤ ae.term → TruncOk R n ae
  | .recv (.appendEntriesReply _ hb r) =>
    ErrOk R n hb r ∧ n.NextOk R hb r
  | .recv (.installSnapshot _ m) =>
    n.opState = .active → n.currentTerm ≤ m.term → m.done = true → m.objects = [] → InstOk R n m.lastIdx
  | .recv (.installSnapshotReply _ r) => SnapNextOk R n r
  | .timeoutNow => n.opState = .active → LeadOk R (n.setCurrentTerm (n.currentTerm + 1)).asCandidate
  | .periodic => n.startsElection env = true → LeadOk R n.asCandidate
  | .task => n.identity = .leader → R.flush n
  | .write e _ => e.isCfgChange = false
  | .finish (.diskAppend _ last _) res _ => res ≠ 0 → R.errVote n res last n.nodeId
  | .finish .truncatePrev res _ => res ≠ 1
  | .finish (.recoveryRead node next es) res _ => res = 0 → es ≠ [] → R.lateRead n node next es
  | .finish (.applying idx) _ _ => R.evict n idx
  | .finish (.snapWrite src done i r) _ _ => .snapWrite src done i r ∈ n.pending → done = true → InstOk R n i
  | .finish (.snapSetIndex src i r) _ _ => .snapSetIndex src i r ∈ n.pending → R.install n i
  | _ => True

theorem acts_finish {p : Pending} {res : Int} {io : IoData} (hi : inp (.finish p res io)) (hp : p ∈ n.pending)
    (hR : RisksOk R n env (.finish p res io)) :
    Acts inp R n (({ n with pending := n.pending.erase p } : Node).finishWork md5 env res io p) := by
  have hdrop : p.isApply = false → p.isDiskWrite = false → Acts inp R n { n with pending := n.pending.erase p } :=
    fun h hw => .single (.dropWork ⟨res, io, hi⟩ h hw)
  cases p with
  | diskAppend first last es => exact .single (.diskDone ⟨io, hi⟩ hp hR)
  | followAppend first last commit es => exact .single (.followDone ⟨io, hi⟩ hp)
  | truncatePrev =>
    dsimp only [finishWork]
    split
    · exact hdrop rfl rfl
    · rename_i hc
      exact .single (.truncatePrevDone hp hc hR)
  | truncateEntry i =>
    dsimp only [finishWork]
    split
    · exact hdrop rfl rfl
    · rename_i hc
      exact .single (.truncateEntryDone hp hc)
  | recoveryRead node next es =>
    refine .single (.sendRead hp ?_ ?_)
    · split <;> simp
    · intro hne
      by_cases h0 : res = 0
      · exact hR h0 (by simpa [h0] using hne)
      · simp [h0] at hne
  | applyRead idx e =>
    by_cases h0 : res = 0
    · cases e with
      | none =>
        simp only [finishWork, applyEntry, ite_self]
        exact .single (.applyReadFailed hp)
      | some e =>
        simp only [finishWork, applyEntry, h0, if_true]
        exact .single (.applyReadDone hp)
    · simp only [finishWork, applyEntry, h0, if_false]
      exact .single (.applyReadFailed hp)
  | applying idx => exact .single (.applyDone ⟨io, hi⟩ hp hR)
  | snapCreate node => exact (hdrop rfl rfl).trans acts_snapCreated
  | checkRead src r =>
    exact ((hdrop rfl rfl).trans acts_setElectionTimer).tail (.answer (.inr ⟨src, r, res, io, hi⟩))
  | snapRead node checks => exact (hdrop rfl rfl).trans acts_snapReadDone
  | snapWrite src done i r =>
    -- the index is taken over while the work is still pending, which commutes with removing it
    have h : Acts inp R n (n.snapWriteDone env src done i r res) :=
      acts_snapWriteDone (.inr (.inl ⟨src, done, r, res, io, hi⟩)) (fun hd => .inr (.inl ⟨src, r, hd ▸ hp⟩)) (hR hp)
    have he : (({ n with pending := n.pending.erase (.snapWrite src done i r) } : Node).snapWriteDone env src
        done i r res) = { (n.snapWriteDone env src done i r res) with
          pending := (n.snapWriteDone env src done i r res).pending.erase (.snapWrite src done i r) } := by
      unfold snapWriteDone
      cases done with
      | false => rfl
      | true =>
        cases hd : n.log.disk.trimBack n.log.disk.lowestIndex n.log.disk.highestIndex with
        | none => simp [setElectionTimer, hd, snapSetIndexDone, setIndexAfterSnapshot, emit]
        | some d => simp [setElectionTimer, hd, List.erase_append_left _ hp]
    show Acts inp R n (({ n with pending := n.pending.erase (.snapWrite src done i r) } : Node).snapWriteDone env
      src done i r res)
    rw [he]
    exact h.tail (.dropWork ⟨res, io, hi⟩ rfl rfl)
  | snapSetIndex src i r =>
    have he : EndsInstall inp i := .inr (.inr ⟨src, r, res, io, hi⟩)
    exact (Relation.ReflTransGen.single (.install he (.inr (.inr ⟨src, r, hp⟩)) (hR hp))).tail
      (.dropWork (p := .snapSetIndex src i r) ⟨res, io, hi⟩ rfl rfl)
  | snapDelete node b => exact (hdrop rfl rfl).trans acts_snapDeleted

/-- **One event is a sequence of acts**, if the risks taken into account
are met. -/
theorem handle_acts {ev : Event} (hi : inp ev) (hR : RisksOk R n env ev) :
    Acts inp R n (n.handle md5 env ev) := by
  cases ev with
  | recv m =>
    cases m with
    | requestVote dst m => exact acts_recvRequestvote hi
    | requestVoteReply dst m => exact acts_processRequestvoteReply hi hR
    | appendEntries dst hb m => exact acts_recvAppendentries hi hR
    | appendEntriesReply dst hb m => exact acts_processAppendentriesReply hi hR.1 hR.2
    | snapshotCheck dst m => exact acts_recvSnapshotCheck hi
    | snapshotCheckReply dst m => exact acts_processSnapshotCheckReply
    | installSnapshot dst m => exact acts_recvInstallsnapshot hi hR
    | installSnapshotReply dst m => exact acts_processInstallsnapshotReply hi hR
  | timeoutNow => exact acts_recvTimeoutNow hR
  | periodic =>
    dsimp only [handle, running]
    split
    · exact .refl
    · exact acts_raftPeriodic hR
  | task =>
    dsimp only [handle, running]
    split
    · exact .refl
    · exact acts_raftTask hR
  | heartbeat => exact acts_dispatchHeartbeats
  | applyTask =>
    dsimp only [handle, running]
    split
    · exact .refl
    · split
      · exact .refl
      · exact acts_raftApplyEntry
  | trim nearUp =>
    dsimp only [handle, running]
    split
    · exact .refl
    · exact .single (.trim hi)
  | write e client => exact acts_writeEntry hi hR
  | finish p res io =>
    dsimp only [handle]
    split
    · rename_i hp
      exact acts_finish hi (by simpa using hp) hR
    · exact .refl
  | rpcFailed node => exact acts_updNode fun _ => rfl
  | stop => exact acts_stop hi

end Node
end Fastblock.L3.Raft
