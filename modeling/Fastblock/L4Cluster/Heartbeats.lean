import Fastblock.Core.Groups
import Fastblock.L3Raft.RaftNodes
import Mathlib.Data.List.Sort

/-!
# Merged heartbeats

A shard beats for all its groups at once. `get_heartbeat_requests`
(src/raft/pg_group.cc:166-223) collects one entry for each follower of
each led group, in one request for each target; the service answers the
entries one by one and in any order (src/raft/raft_service.h:293-355), and
the sender hands response `i` to the group of entry `i`
(src/raft/raft_client_protocol.cc:71-109).

`heartbeats_exact_iff`: each follower that is due gets one entry, in the
request to it, exactly if one of its objects is due and the log still has
the entry before its next index. A follower that fell behind the front of
the log is marked as beaten and gets nothing. The responses reach the
groups of their entries exactly if none of these groups was removed
meanwhile: the sender does not check what `get_pg` returns.
-/
namespace Fastblock.L4.Heartbeats

open Fastblock.Core Fastblock.L3.Raft

/-- `heartbeat_metadata` -/
structure HeartbeatMetadata where
  nodeId : Nat
  targetNodeId : Nat
  poolId : Nat
  pgId : Nat
  term : Nat
  prevLogIdx : Nat
  prevLogTerm : Nat
  leaderCommit : Nat
  deriving DecidableEq, Repr

/-- What `pg_id_to_name` makes the name of a group from. -/
abbrev PgKey := Nat × Nat

def HeartbeatMetadata.key (m : HeartbeatMetadata) : PgKey := (m.poolId, m.pgId)

/-- A group of the shard. Its members are the objects of `nodes`, not
those of `raft`. The heartbeat period is never 0,
partition_manager.h:41. -/
structure Pg where
  poolId : Nat
  pgId : Nat
  raft : Node
  nodes : RaftNodes
  timeout : 0 < raft.heartbeatTimeout

namespace Pg

def key (pg : Pg) : PgKey := (pg.poolId, pg.pgId)

/-- The objects in the order of `for_all_node`, raft_node.h:218-228; one
that is in both sets is visited twice. -/
def objects (pg : Pg) : List Nat := pg.nodes.nodes.map Prod.snd ++ pg.nodes.newNodes.map Prod.snd

def obj (pg : Pg) (r : Nat) : RaftNode := pg.nodes.heap.obj r

/-- The checks at pg_group.cc:179-193. -/
def due (now : Int) (pg : Pg) (r : Nat) : Bool :=
  !pg.raft.isSelf (pg.obj r) && !(pg.obj r).suppressHeartbeats &&
    decide ((pg.obj r).appendTime + pg.raft.heartbeatTimeout ≤ now)

/-- `raft_set_append_time` and `raft_set_election_timer`,
pg_group.cc:198-200 -/
def touch (now : Int) (pg : Pg) (r : Nat) : Pg :=
  { pg with
    raft := { pg.raft with electionTimer := now }
    nodes := { pg.nodes with
      heap := { pg.nodes.heap with obj := Function.update pg.nodes.heap.obj r { pg.obj r with appendTime := now } } } }

/-- The entry for a node, pg_group.cc:202-220: none if the log no longer has
the entry before its next index. -/
def metadata (pg : Pg) (p : RaftNode) : Option HeartbeatMetadata :=
  let m (t : Nat) : HeartbeatMetadata :=
    { nodeId := pg.raft.nodeId, targetNodeId := p.id, poolId := pg.poolId, pgId := pg.pgId
      term := pg.raft.currentTerm, prevLogIdx := p.nextIdx - 1, prevLogTerm := t
      leaderCommit := pg.raft.commitIdx }
  match pg.raft.log.entryTerm (p.nextIdx - 1) with
  | some t => some (m t)
  | none => if p.nextIdx - 1 ≠ 0 then none else some (m 0)

/-- mirrors the lambda `create_heartbeat_request`, pg_group.cc:178-221,
with what it adds to `pending_beats` -/
def createHeartbeatRequest (now : Int) (s : Pg × List (Nat × HeartbeatMetadata)) (r : Nat) :
    Pg × List (Nat × HeartbeatMetadata) :=
  if s.1.due now r then
    (s.1.touch now r, s.2 ++ (s.1.metadata (s.1.obj r)).toList.map fun m => ((s.1.obj r).id, m))
  else s

/-- One turn of the loop at pg_group.cc:172-223. -/
def heartbeats (now : Int) (pg : Pg) : Pg × List (Nat × HeartbeatMetadata) :=
  if !pg.raft.isLeader then (pg, []) else pg.objects.foldl (createHeartbeatRequest now) (pg, [])

end Pg

/-- `shard_manager`: the groups of a core, by name. -/
structure ShardManager where
  pgs : List Pg
  names : (pgs.map Pg.key).Nodup

/-- `node_heartbeat` -/
abbrev HeartbeatRequest := Nat × List HeartbeatMetadata

/-- mirrors pg_group.cc:166-231; the requests are in the order of their
targets -/
def ShardManager.getHeartbeatRequests (now : Int) (sm : ShardManager) : List HeartbeatRequest :=
  (groups (sm.pgs.flatMap fun pg => (pg.heartbeats now).2)).insertionSort fun a b => a.1 ≤ b.1

/-! ## What a round should send -/

namespace Pg

/-- The group leads and one of the objects of node `id` is due. -/
def Due (now : Int) (pg : Pg) (id : Nat) : Prop :=
  pg.raft.isLeader = true ∧ ∃ r ∈ pg.objects, (pg.obj r).id = id ∧ pg.due now r = true

/-- Exactly one object of node `id` is due and has the entry before its
next index in the log, or starts with the first one. The node is one
object if the sets are `RaftNodes.Shared`. -/
def Ready (now : Int) (pg : Pg) (id : Nat) : Prop :=
  ∃! r, r ∈ pg.objects ∧ (pg.obj r).id = id ∧ pg.due now r = true ∧
    ((pg.raft.log.entryTerm ((pg.obj r).nextIdx - 1)).isSome ∨ (pg.obj r).nextIdx - 1 = 0)

end Pg

/-- Each pair that is due has one entry, in the request to the follower;
there are no others. -/
structure Merged (now : Int) (pgs : List Pg) (reqs : List HeartbeatRequest) : Prop where
  targets : (reqs.map Prod.fst).Nodup
  placed : ∀ q ∈ reqs, ∀ m ∈ q.2, m.targetNodeId = q.1
  once : ∀ pg ∈ pgs, ∀ id, pg.Due now id →
    (reqs.flatMap Prod.snd).countP (fun m => m.key = pg.key ∧ m.targetNodeId = id) = 1
  only : ∀ q ∈ reqs, ∀ m ∈ q.2, ∃ pg ∈ pgs, pg.Due now q.1 ∧ ∃ r ∈ pg.objects, pg.metadata (pg.obj r) = some m

def ShardManager.Ready (now : Int) (sm : ShardManager) : Prop :=
  ∀ pg ∈ sm.pgs, ∀ id, pg.Due now id → pg.Ready now id

/-! ## The loop over the members -/

namespace Pg

variable {now : Int} {pg : Pg}

/-- What visiting an object that is due adds. -/
def beat (pg : Pg) (r : Nat) : Option (Nat × HeartbeatMetadata) :=
  (pg.metadata (pg.obj r)).map fun m => ((pg.obj r).id, m)

theorem obj_touch_self (pg : Pg) (r : Nat) : (pg.touch now r).obj r = { pg.obj r with appendTime := now } :=
  Function.update_self ..

theorem obj_touch_ne (pg : Pg) {r r' : Nat} (h : r' ≠ r) : (pg.touch now r).obj r' = pg.obj r' :=
  Function.update_of_ne h ..

/-- An object is due once in a round. -/
theorem due_touch (pg : Pg) (r r' : Nat) : (pg.touch now r).due now r' = (decide (r' ≠ r) && pg.due now r') := by
  by_cases h : r' = r
  · subst h
    have := pg.timeout
    have hlate : ¬ (now + pg.raft.heartbeatTimeout ≤ now) := by omega
    unfold due
    rw [obj_touch_self]
    simp [touch, hlate]
  · rw [decide_eq_true h, Bool.true_and]
    unfold due
    rw [obj_touch_ne pg h]
    rfl

theorem beat_touch (pg : Pg) (r r' : Nat) : (pg.touch now r).beat r' = pg.beat r' := by
  unfold beat
  by_cases h : r' = r
  · subst h
    rw [obj_touch_self]
    rfl
  · rw [obj_touch_ne pg h]
    rfl

/-- The loop adds what the objects that are due give, each once. -/
theorem foldl_create (now : Int) (rs : List Nat) (pg : Pg) (beats : List (Nat × HeartbeatMetadata)) :
    (rs.foldl (createHeartbeatRequest now) (pg, beats)).2.Perm
      (beats ++ (rs.filter (pg.due now)).dedup.filterMap pg.beat) := by
  induction rs generalizing pg beats with
  | nil => simp
  | cons r rs ih =>
    rw [List.foldl_cons, createHeartbeatRequest]
    by_cases hdue : pg.due now r = true
    · rw [if_pos hdue]
      refine (ih _ _).trans ?_
      have hbeat : (pg.touch now r).beat = pg.beat := funext (pg.beat_touch r)
      have hfilter : rs.filter ((pg.touch now r).due now) = (rs.filter (pg.due now)).filter (· ≠ r) := by
        rw [List.filter_filter]
        exact List.filter_congr fun r' _ => pg.due_touch r r'
      -- `r` is visited first, and its later visits are skipped
      have hfirst : (r :: rs.filter (pg.due now)).dedup.Perm
          (r :: ((rs.filter (pg.due now)).filter (· ≠ r)).dedup) := by
        refine (List.perm_ext_iff_of_nodup (List.nodup_dedup _) ?_).mpr fun x => ?_
        · simp [List.nodup_dedup]
        · by_cases hx : x = r <;> simp [hx]
      have hone : (pg.metadata (pg.obj r)).toList.map (fun m => ((pg.obj r).id, m)) = (pg.beat r).toList := by
        unfold beat
        cases pg.metadata (pg.obj r) <;> rfl
      rw [hbeat, hfilter, hone, List.append_assoc, List.filter_cons_of_pos hdue]
      refine List.Perm.append_left beats (.trans ?_ (hfirst.filterMap pg.beat).symm)
      rw [List.filterMap_cons]
      cases pg.beat r <;> simp
    · rw [if_neg hdue, List.filter_cons_of_neg hdue]
      exact ih pg beats

theorem heartbeats_perm (h : pg.raft.isLeader = true) :
    (pg.heartbeats now).2.Perm ((pg.objects.filter (pg.due now)).dedup.filterMap pg.beat) := by
  have := foldl_create now pg.objects pg []
  simpa [heartbeats, h] using this

theorem metadata_some {p : RaftNode} {m : HeartbeatMetadata} (h : pg.metadata p = some m) :
    m.key = pg.key ∧ m.targetNodeId = p.id := by
  unfold metadata at h
  split at h
  · obtain rfl := Option.some.inj h
    exact ⟨rfl, rfl⟩
  · split at h
    · cases h
    · obtain rfl := Option.some.inj h
      exact ⟨rfl, rfl⟩

theorem metadata_isSome (p : RaftNode) : (pg.metadata p).isSome ↔
    (pg.raft.log.entryTerm (p.nextIdx - 1)).isSome ∨ p.nextIdx - 1 = 0 := by
  unfold metadata
  cases pg.raft.log.entryTerm (p.nextIdx - 1) with
  | some t => simp
  | none => by_cases h0 : p.nextIdx - 1 = 0 <;> simp [h0]

/-- An entry of a round comes from an object that is due. -/
theorem mem_heartbeats {x : Nat × HeartbeatMetadata} (h : x ∈ (pg.heartbeats now).2) :
    pg.Due now x.1 ∧ ∃ r ∈ pg.objects, pg.metadata (pg.obj r) = some x.2 ∧ (pg.obj r).id = x.1 := by
  by_cases hl : pg.raft.isLeader = true
  · obtain ⟨r, hr, hb⟩ := List.mem_filterMap.mp ((heartbeats_perm hl).mem_iff.mp h)
    obtain ⟨hr, hdue⟩ := List.mem_filter.mp (List.mem_dedup.mp hr)
    obtain ⟨m, hm, rfl⟩ := Option.map_eq_some_iff.mp hb
    exact ⟨⟨hl, r, hr, rfl, hdue⟩, r, hr, hm, rfl⟩
  · simp [heartbeats, hl] at h

/-- A group sends one entry to a node exactly if the node is ready. -/
theorem countP_heartbeats (hl : pg.raft.isLeader = true) (id : Nat) :
    (pg.heartbeats now).2.countP (fun x => x.2.key = pg.key ∧ x.2.targetNodeId = id) = 1 ↔ pg.Ready now id := by
  let good (r : Nat) : Bool := decide ((pg.obj r).id = id) && (pg.metadata (pg.obj r)).isSome
  have hcount : (pg.heartbeats now).2.countP (fun x => x.2.key = pg.key ∧ x.2.targetNodeId = id) =
      ((pg.objects.filter (pg.due now)).dedup.filter good).length := by
    rw [(heartbeats_perm hl).countP_eq, List.countP_filterMap, List.countP_eq_length_filter]
    congr 1
    refine List.filter_congr fun r _ => ?_
    cases hm : pg.metadata (pg.obj r) with
    | none => simp [good, beat, hm]
    | some m =>
      obtain ⟨hkey, htarget⟩ := metadata_some hm
      simp [good, beat, hm, hkey, htarget]
  rw [hcount, Core.length_eq_one_iff_existsUnique ((List.nodup_dedup _).filter _)]
  refine existsUnique_congr fun r => ?_
  simp only [List.mem_filter, List.mem_dedup, good, Bool.and_eq_true, decide_eq_true_eq, metadata_isSome]
  tauto

end Pg

/-! ## A round -/

section Round

variable {now : Int} {sm : ShardManager}

theorem requests_perm : (sm.getHeartbeatRequests now).Perm (groups (sm.pgs.flatMap fun pg => (pg.heartbeats now).2)) :=
  List.perm_insertionSort _ _

theorem mem_requests {q : HeartbeatRequest} (hq : q ∈ sm.getHeartbeatRequests now)
    {m : HeartbeatMetadata} (hm : m ∈ q.2) :
    ∃ pg ∈ sm.pgs, (q.1, m) ∈ (pg.heartbeats now).2 :=
  List.mem_flatMap.mp ((mem_groups (requests_perm.mem_iff.mp hq)).mp hm)

/-- The entries for one pair are those of its group. -/
theorem countP_requests {pg : Pg} (hpg : pg ∈ sm.pgs) (id : Nat) :
    ((sm.getHeartbeatRequests now).flatMap Prod.snd).countP (fun m => m.key = pg.key ∧ m.targetNodeId = id) =
      (pg.heartbeats now).2.countP (fun x => x.2.key = pg.key ∧ x.2.targetNodeId = id) := by
  rw [(requests_perm.flatMap_right _).countP_eq, (groups_perm _).countP_eq, List.countP_map]
  refine countP_flatMap_of_key sm.names hpg fun pg' _ hne => ?_
  refine List.countP_eq_zero.mpr fun x hx => ?_
  obtain ⟨-, r, -, hmeta, -⟩ := Pg.mem_heartbeats hx
  simp [(Pg.metadata_some hmeta).1, hne]

theorem merged_iff : Merged now sm.pgs (sm.getHeartbeatRequests now) ↔ sm.Ready now := by
  constructor
  · intro h pg hpg id hdue
    rw [← Pg.countP_heartbeats hdue.1, ← countP_requests hpg]
    exact h.once pg hpg id hdue
  · intro h
    refine ⟨?_, fun q hq m hm => ?_, fun pg hpg id hdue => ?_, fun q hq m hm => ?_⟩
    · exact (requests_perm.map _).nodup_iff.mpr (groups_keys_nodup _)
    · obtain ⟨pg, -, hx⟩ := mem_requests hq hm
      obtain ⟨-, r, -, hmeta, hid⟩ := Pg.mem_heartbeats hx
      exact (Pg.metadata_some hmeta).2.trans hid
    · rw [countP_requests hpg, Pg.countP_heartbeats hdue.1]
      exact h pg hpg id hdue
    · obtain ⟨pg, hpg, hx⟩ := mem_requests hq hm
      obtain ⟨hdue, r, hr, hmeta, -⟩ := Pg.mem_heartbeats hx
      exact ⟨pg, hpg, hdue, r, hr, hmeta⟩

end Round

/-! ## The answers -/

/-- A response being made: the group asked for it and with what, and its
content. -/
structure HeartbeatSlot where
  asked : Option (PgKey × AppendEntries) := none
  reply : Option AppendEntriesReply := none

/-- A call of `raft_service::heartbeat`, raft_service.h:293-355: the
request and the responses that `add_meta` made, one for each entry. -/
structure HeartbeatCall where
  request : List HeartbeatMetadata
  slots : List HeartbeatSlot

/-- The message made of an entry, raft_service.h:344-350. -/
def HeartbeatMetadata.toAppendEntries (m : HeartbeatMetadata) : AppendEntries :=
  { nodeId := m.nodeId, term := m.term, prevLogIdx := m.prevLogIdx, prevLogTerm := m.prevLogTerm
    leaderCommit := m.leaderCommit, entries := [] }

namespace HeartbeatCall

inductive Label where
  /-- the group is not found, or its state is an error;
  raft_service.h:308-316, 325-342 -/
  | refuse (i : Nat) (nodeId : Nat) (err : Int)
  /-- `append_entries_to_buffer` -/
  | ask (i : Nat)
  /-- the group answers -/
  | answer (i : Nat) (r : AppendEntriesReply)

/-- Entry `i` is served from its own data and answered in slot `i`. -/
def step? (c : HeartbeatCall) : Label → Option HeartbeatCall
  | .refuse i nodeId err =>
    match c.slots[i]? with
    | some ⟨none, none⟩ => some { c with slots := c.slots.set i ⟨none, some { nodeId := nodeId, success := err }⟩ }
    | _ => none
  | .ask i =>
    match c.request[i]?, c.slots[i]? with
    | some m, some ⟨none, none⟩ => some { c with slots := c.slots.set i ⟨some (m.key, m.toAppendEntries), none⟩ }
    | _, _ => none
  | .answer i r =>
    match c.slots[i]? with
    | some ⟨some a, none⟩ => some { c with slots := c.slots.set i ⟨some a, some r⟩ }
    | _ => none

/-- The entries are served in any order. -/
def lts (request : List HeartbeatMetadata) : Lts HeartbeatCall Label where
  init c := c = ⟨request, request.map fun _ => {}⟩
  step c l c' := c.step? l = some c'

/-- `heartbeat_complete`: the response is sent when all slots are filled. -/
def response (c : HeartbeatCall) : Option (List AppendEntriesReply) := c.slots.mapM HeartbeatSlot.reply

end HeartbeatCall

/-- The loop body at raft_client_protocol.cc:96-104 for the entry at `i`:
the group whose `raft_process_appendentries_reply` is called, with the
response. `none` is a call through a null pointer. -/
def ShardManager.processMeta (sm : ShardManager) (response : List AppendEntriesReply)
    (m : HeartbeatMetadata) (i : Nat) :
    Option (PgKey × AppendEntriesReply) := do
  let pg ← sm.pgs.find? fun pg => pg.key = m.key
  let r ← response[i]?
  return (pg.key, r)

/-- mirrors `heartbeat_source::process_response`,
raft_client_protocol.cc:71-109, for a call that did not fail -/
def ShardManager.processResponse (sm : ShardManager) (request : List HeartbeatMetadata)
    (response : List AppendEntriesReply) : Option (List (PgKey × AppendEntriesReply)) :=
  if response.isEmpty then some [] else request.zipIdx.mapM fun (m, i) => sm.processMeta response m i

/-- Response `i` is processed by the group of entry `i`, and nothing else
is. -/
def ShardManager.Delivered (sm : ShardManager) (request : List HeartbeatMetadata)
    (response : List AppendEntriesReply) : Prop :=
  sm.processResponse request response = some (List.zipWith (fun m r => (m.key, r)) request response)

namespace HeartbeatCall

variable {request : List HeartbeatMetadata} {c c' : HeartbeatCall}

/-- Each entry has its slot, and what was asked for it comes from it. -/
structure Inv (request : List HeartbeatMetadata) (c : HeartbeatCall) : Prop where
  same : c.request = request
  length : c.slots.length = request.length
  asked : ∀ (i : Nat) (m : HeartbeatMetadata) (s : HeartbeatSlot) a, request[i]? = some m → c.slots[i]? = some s →
    s.asked = some a → a = (m.key, m.toAppendEntries)

theorem Inv.set (h : Inv request c) {i : Nat} {s : HeartbeatSlot}
    (hs : ∀ m a, request[i]? = some m → s.asked = some a → a = (m.key, m.toAppendEntries)) :
    Inv request { c with slots := c.slots.set i s } := by
  refine ⟨h.same, (List.length_set ..).trans h.length, fun j m s' a hm hs' ha => ?_⟩
  rw [List.getElem?_set] at hs'
  split at hs'
  · next hij =>
    subst hij
    split at hs'
    · obtain rfl := Option.some.inj hs'
      exact hs m a hm ha
    · cases hs'
  · exact h.asked j m s' a hm hs' ha

theorem Inv.step (h : Inv request c) {l : Label} (hs : c.step? l = some c') : Inv request c' := by
  cases l with
  | refuse i nodeId err =>
    simp only [step?] at hs
    split at hs
    · obtain rfl := Option.some.inj hs
      exact h.set (by simp)
    · cases hs
  | ask i =>
    simp only [step?] at hs
    split at hs
    · next m hm _ =>
      obtain rfl := Option.some.inj hs
      refine h.set fun m' a hm' ha => ?_
      rw [h.same] at hm
      obtain rfl := Option.some.inj (hm.symm.trans hm')
      exact (Option.some.inj ha).symm
    · cases hs
  | answer i r =>
    simp only [step?] at hs
    split at hs
    · next a hslot =>
      obtain rfl := Option.some.inj hs
      exact h.set fun m a' hm ha => h.asked i m _ a' hm hslot ha
    · cases hs

theorem inv_reachable (hr : (lts request).Reachable c) : Inv request c := by
  have hI : (lts request).Inductive (Inv request) := by
    refine ⟨?_, fun _ _ _ h hs => h.step hs⟩
    intro c h0
    obtain rfl : c = ⟨request, request.map fun _ => {}⟩ := h0
    refine ⟨rfl, List.length_map _, fun i m s a hm hs ha => ?_⟩
    rw [List.getElem?_map, hm] at hs
    obtain rfl := Option.some.inj hs
    cases ha
  exact hI.reachable hr

theorem length_response (hr : (lts request).Reachable c) {rsp : List AppendEntriesReply} (h : c.response = some rsp) :
    rsp.length = request.length := by
  rw [← (inv_reachable hr).length]
  simpa using (congrArg List.length (mapM_eq_some_iff.mp h)).symm

end HeartbeatCall

theorem ShardManager.find_key (sm : ShardManager) (k : PgKey) :
    (sm.pgs.find? fun pg => pg.key = k).map Pg.key = if k ∈ sm.pgs.map Pg.key then some k else none := by
  cases h : sm.pgs.find? fun pg => pg.key = k with
  | none =>
    rw [if_neg, Option.map_none]
    intro hk
    obtain ⟨pg, hpg, hkey⟩ := List.mem_map.mp hk
    exact absurd hkey (by simpa using List.find?_eq_none.mp h pg hpg)
  | some pg =>
    have hkey : pg.key = k := by simpa using List.find?_some h
    rw [if_pos, Option.map_some, hkey]
    exact hkey ▸ List.mem_map_of_mem (List.mem_of_find?_eq_some h)

theorem ShardManager.processMeta_eq (sm : ShardManager) {response : List AppendEntriesReply} {i : Nat}
    {r : AppendEntriesReply} (hr : response[i]? = some r) (m : HeartbeatMetadata) :
    sm.processMeta response m i = if m.key ∈ sm.pgs.map Pg.key then some (m.key, r) else none := by
  have hfind := sm.find_key m.key
  unfold processMeta
  split
  · next hk =>
    rw [if_pos hk] at hfind
    obtain ⟨pg, hpg, hkey⟩ := Option.map_eq_some_iff.mp hfind
    simp [hpg, hr, hkey]
  · next hk =>
    rw [if_neg hk, Option.map_eq_none_iff] at hfind
    simp [hfind]

/-- A response is delivered exactly if the groups are still there. -/
theorem delivered_iff {sm : ShardManager} {request : List HeartbeatMetadata} {response : List AppendEntriesReply}
    (hlen : response.length = request.length) :
    sm.Delivered request response ↔ ∀ m ∈ request, m.key ∈ sm.pgs.map Pg.key := by
  unfold ShardManager.Delivered ShardManager.processResponse
  by_cases h0 : response = []
  · obtain rfl : request = [] := List.length_eq_zero_iff.mp (by simpa [h0] using hlen.symm)
    simp [h0]
  · rw [if_neg (by simpa using h0), mapM_eq_some_iff, List.ext_getElem?_iff]
    simp only [List.getElem?_map, List.getElem?_zipIdx, List.getElem?_zipWith]
    constructor
    · intro h m hm
      obtain ⟨i, hi, rfl⟩ := List.getElem_of_mem hm
      have hri : response[i]? = some response[i] := List.getElem?_eq_getElem (by omega)
      have hat := h i
      rw [List.getElem?_eq_getElem hi, hri] at hat
      simpa [sm.processMeta_eq hri] using hat
    · intro h i
      by_cases hi : i < request.length
      · have hri : response[i]? = some response[i] := List.getElem?_eq_getElem (by omega)
        rw [List.getElem?_eq_getElem hi, hri]
        simp only [Option.map_some, Nat.zero_add]
        rw [sm.processMeta_eq hri, if_pos (h _ (List.getElem_mem hi))]
      · rw [List.getElem?_eq_none (by omega)]
        rfl

/-- **Heartbeat merging is exact.** A round gives every pair that is due
one entry in one request exactly if every follower that is due is ready.
However the entries of a request are served, each group is asked about its
own entry, and when the reply arrives, response `i` goes to the group of
entry `i`, exactly if the groups of the request are still in the shard. -/
theorem heartbeats_exact_iff (sm : ShardManager) (now : Int) :
    (Merged now sm.pgs (sm.getHeartbeatRequests now) ↔ sm.Ready now) ∧
      ∀ q ∈ sm.getHeartbeatRequests now, ∀ c, (HeartbeatCall.lts q.2).Reachable c → ∀ rsp, c.response = some rsp →
        HeartbeatCall.Inv q.2 c ∧ rsp.length = q.2.length ∧
          ∀ later : ShardManager, later.Delivered q.2 rsp ↔ ∀ m ∈ q.2, m.key ∈ later.pgs.map Pg.key := by
  refine ⟨merged_iff, fun q _ c hr rsp hrsp => ?_⟩
  have hlen := HeartbeatCall.length_response hr hrsp
  exact ⟨HeartbeatCall.inv_reachable hr, hlen, fun later => delivered_iff hlen⟩

/-! ## Two groups with one follower -/

/-- Node 1 leads the group with node 2, and its log begins with entry 5. -/
def twoNodes (pgId nextIdx : Nat) : Pg where
  poolId := 1
  pgId := pgId
  raft :=
    { nodeId := 1, identity := .leader, currentTerm := 1, commitIdx := 5
      log := { disk := { entries := [{ idx := 5, term := 1, type := .write, metadata := [], data := [] }] } } }
  nodes := { heap := { obj := fun r => { id := r, nextIdx := nextIdx }, next := 3 }, nodes := [(1, 1), (2, 2)] }
  timeout := by decide

/-- The groups 1.1 and 1.2 with the same `next_idx`. -/
def shardOf (nextIdx : Nat) : ShardManager :=
  ⟨[twoNodes 1 nextIdx, twoNodes 2 nextIdx], (by decide : [(1, 1), (1, 2)].Nodup)⟩

def beatTo2 (pgId : Nat) : HeartbeatMetadata :=
  { nodeId := 1, targetNodeId := 2, poolId := 1, pgId, term := 1, prevLogIdx := 5, prevLogTerm := 1,
    leaderCommit := 5 }

def replyOf2 (idx : Nat) : AppendEntriesReply := { nodeId := 2, term := 1, success := 1, currentIdx := idx }

/-- One request for both groups, and the call after node 2 has answered. -/
def beats : List HeartbeatMetadata := [beatTo2 1, beatTo2 2]

def served : HeartbeatCall :=
  ⟨beats, [⟨some ((beatTo2 1).key, (beatTo2 1).toAppendEntries), some (replyOf2 5)⟩,
    ⟨some ((beatTo2 2).key, (beatTo2 2).toAppendEntries), some (replyOf2 6)⟩]⟩

theorem requests_shardOf : (shardOf 6).getHeartbeatRequests 1000 = [(2, beats)] := by decide

/-- The second group answers first. -/
theorem reachable_served : (HeartbeatCall.lts beats).Reachable served := by
  have hinit : (HeartbeatCall.lts beats).Reachable ⟨beats, [{}, {}]⟩ := .of_init rfl
  have hfollow : Lts.follow HeartbeatCall.step? (fun _ _ => True) ⟨beats, [{}, {}]⟩
      [.ask 0, .ask 1, .answer 1 (replyOf2 6), .answer 0 (replyOf2 5)] = some served := rfl
  exact hinit.run (Lts.Run.follow (fun _ _ _ h => h) hfollow).of_restrict

/-- Node 2 is the only one that is due. -/
theorem due_twoNodes {pgId nextIdx r : Nat} (hr : r ∈ (twoNodes pgId nextIdx).objects)
    (h : (twoNodes pgId nextIdx).due 1000 r = true) : r = 2 := by
  have hcases : r = 1 ∨ r = 2 := by simpa [Pg.objects, twoNodes] using hr
  rcases hcases with rfl | rfl
  · simp [Pg.due, Pg.obj, twoNodes, Node.isSelf] at h
  · rfl

theorem ready_shardOf : (shardOf 6).Ready 1000 := by
  intro pg hpg id hdue
  obtain ⟨pgId, rfl⟩ : ∃ pgId, pg = twoNodes pgId 6 := by
    rcases List.mem_pair.mp hpg with rfl | rfl <;> exact ⟨_, rfl⟩
  obtain ⟨-, r, hr, hid, hd⟩ := hdue
  obtain rfl := due_twoNodes hr hd
  refine ⟨2, ⟨hr, hid, hd, .inl rfl⟩, fun r' hr' => ?_⟩
  exact due_twoNodes hr'.1 hr'.2.2.1

theorem heartbeats_exact_served :
    Merged 1000 (shardOf 6).pgs ((shardOf 6).getHeartbeatRequests 1000) ∧
      (shardOf 6).Delivered beats [replyOf2 5, replyOf2 6] := by
  obtain ⟨hmerged, hreply⟩ := heartbeats_exact_iff (shardOf 6) 1000
  refine ⟨hmerged.mpr ready_shardOf, ?_⟩
  have hq : (2, beats) ∈ (shardOf 6).getHeartbeatRequests 1000 := by simp [requests_shardOf]
  exact ((hreply _ hq served reachable_served [replyOf2 5, replyOf2 6] rfl).2.2 (shardOf 6)).mpr (by decide)

/-- The log begins with entry 5 and node 2 needs entry 3: it is due and
gets no entry. And after the group 1.1 is removed, the reply of node 2 is
processed through a null pointer. -/
theorem trimmed_follower_not_beaten :
    ((twoNodes 1 3).Due 1000 2 ∧ (shardOf 3).getHeartbeatRequests 1000 = [] ∧
        ¬ Merged 1000 (shardOf 3).pgs ((shardOf 3).getHeartbeatRequests 1000)) ∧
      (2, beats) ∈ (shardOf 6).getHeartbeatRequests 1000 ∧ (HeartbeatCall.lts beats).Reachable served ∧
        served.response = some [replyOf2 5, replyOf2 6] ∧
        (⟨[twoNodes 2 6], List.nodup_singleton _⟩ : ShardManager).processResponse beats [replyOf2 5,
          replyOf2 6] = none := by
  have hdue : (twoNodes 1 3).Due 1000 2 := ⟨rfl, 2, by decide, rfl, by decide⟩
  have hnone : (shardOf 3).getHeartbeatRequests 1000 = [] := by decide
  refine ⟨⟨hdue, hnone, fun h => ?_⟩, by simp [requests_shardOf], reachable_served, rfl, rfl⟩
  have hone := h.once (twoNodes 1 3) List.mem_cons_self 2 hdue
  simp [hnone] at hone

end Fastblock.L4.Heartbeats
