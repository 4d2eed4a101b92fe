import Mathlib.Data.List.Find
import Mathlib.Logic.Function.Basic
import Fastblock.Core.Lts
import Fastblock.L3Raft.Configuration
import Fastblock.L3Raft.Step

/-!
# The member sets as objects

`raft_nodes` (src/raft/raft_node.h:178-265) maps ids to shared pointers: a
node of both sets should be one `raft_node`, so that an index learned
through one set is known in the other. Here the nodes are objects with an
address, and `update_with_node_configuration`
(src/raft/raft_node.cc:24-65) is translated pointer by pointer.

`update_keeps_iff`: over any run of updates that keep the sets shared, an
update gives the sets the ids of the configuration, one object to each
node of both, and keeps what is known of each node, exactly if a node of
both lists was a member or is in the list of added nodes, and a node that
was only in `_new_nodes` is in that list with what is known of it. The old
`_new_nodes` are never looked at.
-/
namespace Fastblock.L3.Raft

open Fastblock.Core

/-- The `raft_node` objects and the address of the next one. -/
structure NodeHeap where
  obj : Nat → RaftNode := fun _ => { id := 0 }
  next : Nat := 0

/-- `std::make_shared<raft_node>` -/
def NodeHeap.alloc (h : NodeHeap) (p : RaftNode) : NodeHeap :=
  ⟨Function.update h.obj h.next p, h.next + 1⟩

/-- `raft_nodes::nodes_type`: the address for each id. -/
abbrev NodeMap := List (Nat × Nat)

/-- `emplace` keeps an existing key. -/
def NodeMap.emplace (l : NodeMap) (id r : Nat) : NodeMap :=
  if (l.lookup id).isSome then l else l ++ [(id, r)]

/-- `raft_nodes` with the objects it points to. -/
structure RaftNodes where
  heap : NodeHeap := {}
  nodes : NodeMap := []
  newNodes : NodeMap := []

/-- What a leader knows of a node, and whether the node voted for it. -/
def RaftNode.progress (p : RaftNode) : Nat × Nat × Int × Bool := (p.matchIdx, p.nextIdx, p.lease, p.voteForMe)

namespace RaftNodes

/-- mirrors the lambda `get_raft_node`, raft_node.cc:33-53 -/
def getRaftNode (nodes : NodeMap) (add : List Nat) (h : NodeHeap) (id : Nat) : Nat × NodeHeap :=
  match nodes.lookup id with
  | some r => (r, h)
  | none =>
    match add.find? fun r => (h.obj r).id = id with
    | some r => (r, h)
    | none => (h.next, h.alloc { id := id })

/-- One turn of either loop, raft_node.cc:55-59 and 61-65. -/
def addNode (nodes : NodeMap) (add : List Nat) (s : NodeHeap × NodeMap) (info : NodeInfo) : NodeHeap × NodeMap :=
  let (r, h) := getRaftNode nodes add s.1 info.nodeId
  (h, s.2.emplace info.nodeId r)

/-- mirrors raft_node.cc:24-65; `add` are the addresses of
`new_add_nodes` -/
def updateWithNodeConfiguration (s : RaftNodes) (cfg : NodeConfiguration) (add : List Nat) : RaftNodes :=
  let (h, nodes) := cfg.nodes.foldl (addNode s.nodes add) (s.heap, [])
  let (h, newNodes) := cfg.newNodes.foldl (addNode s.nodes add) (h, [])
  ⟨h, nodes, newNodes⟩

inductive Label where
  | update (cfg : NodeConfiguration) (add : List Nat)
  /-- a node is made to catch up, configuration_manager.cc:30-34 -/
  | create (id : Nat)
  /-- something is learned of a node -/
  | learn (r : Nat) (p : RaftNode)

def step? (s : RaftNodes) : Label → Option RaftNodes
  | .update cfg add => if ∀ r ∈ add, r < s.heap.next then some (s.updateWithNodeConfiguration cfg add) else none
  | .create id => some { s with heap := s.heap.alloc { id := id } }
  | .learn r p =>
    if p.id = (s.heap.obj r).id then some { s with heap := { s.heap with obj := Function.update s.heap.obj r p } }
    else none

def lts : Lts RaftNodes Label where
  init s := s = {}
  step s l s' := s.step? l = some s'

/-! ## What an update should keep -/

/-- `r` is the object of `id` in one of the sets. -/
def Has (s : RaftNodes) (id r : Nat) : Prop := s.nodes.lookup id = some r ∨ s.newNodes.lookup id = some r

def Shared (s : RaftNodes) : Prop :=
  ∀ id r r', s.nodes.lookup id = some r → s.newNodes.lookup id = some r' → r = r'

structure Keeps (s : RaftNodes) (cfg : NodeConfiguration) (s' : RaftNodes) : Prop where
  ids : ∀ id, (s'.nodes.lookup id).isSome ↔ id ∈ cfg.nodes.map (·.nodeId)
  newIds : ∀ id, (s'.newNodes.lookup id).isSome ↔ id ∈ cfg.newNodes.map (·.nodeId)
  shared : s'.Shared
  progress : ∀ id r r', s.Has id r → s'.Has id r' → (s'.heap.obj r').progress = (s.heap.obj r).progress

/-- The added object of an id. -/
def added (s : RaftNodes) (add : List Nat) (id : Nat) : Option Nat := add.find? fun r => (s.heap.obj r).id = id

/-- The configuration suits the sets: a node of both lists is a member or
was added, and a node that is in `_new_nodes` only was added with what is
known of it, or nothing is known of it. -/
structure Suits (s : RaftNodes) (cfg : NodeConfiguration) (add : List Nat) : Prop where
  both : ∀ id ∈ cfg.nodes.map (·.nodeId), id ∈ cfg.newNodes.map (·.nodeId) →
    (s.nodes.lookup id).isSome ∨ (s.added add id).isSome
  onlyNew : ∀ id r, s.newNodes.lookup id = some r → s.nodes.lookup id = none →
    id ∈ cfg.nodes.map (·.nodeId) ++ cfg.newNodes.map (·.nodeId) →
      (((s.added add id).map s.heap.obj).getD { id := id }).progress = (s.heap.obj r).progress

/-- The condition on a step: an update suits. -/
def Allowed (s : RaftNodes) : Label → Prop
  | .update cfg add => s.Suits cfg add
  | _ => True

/-! ## The loops -/

theorem lookup_append_one (l : NodeMap) (id r j : Nat) :
    (l ++ [(id, r)]).lookup j = (l.lookup j).or (if j = id then some r else none) := by
  rw [List.lookup_append, List.lookup_cons, List.lookup_nil]
  by_cases hj : j = id
  · simp [hj]
  · simp [hj, beq_eq_false_iff_ne.mpr hj]

theorem lookup_emplace (l : NodeMap) (id r j : Nat) :
    (l.emplace id r).lookup j = if j = id then (l.lookup id).or (some r) else l.lookup j := by
  unfold NodeMap.emplace
  cases hl : l.lookup id with
  | some x =>
    by_cases hj : j = id
    · simp [hj, hl]
    · simp [hj]
  | none =>
    rw [if_neg (by simp), lookup_append_one]
    by_cases hj : j = id
    · simp [hj, hl]
    · simp [hj]

/-- What is found after `emplace` is the new entry or was found before. -/
theorem of_lookup_emplace {l : NodeMap} {id r j r' : Nat} (h : (l.emplace id r).lookup j = some r') :
    j = id ∧ r' = r ∨ l.lookup j = some r' := by
  rw [lookup_emplace] at h
  split at h
  · next hid =>
    subst hid
    rcases Option.or_eq_some_iff.mp h with h | ⟨-, h⟩
    · exact .inr h
    · exact .inl ⟨rfl, (Option.some.inj h).symm⟩
  · exact .inr h

/-- What a loop over the ids `ids` has made of the heap `h₀`; `pick` is the
object taken over for an id. -/
structure Built (pick : Nat → Option Nat) (h₀ : NodeHeap) (ids : List Nat) (s : NodeHeap × NodeMap) : Prop where
  grows : h₀.next ≤ s.1.next
  same : ∀ r < h₀.next, s.1.obj r = h₀.obj r
  keys : ∀ id, (s.2.lookup id).isSome ↔ id ∈ ids
  value : ∀ id r, s.2.lookup id = some r →
    pick id = some r ∨ pick id = none ∧ h₀.next ≤ r ∧ r < s.1.next ∧ s.1.obj r = { id := id }

section Loop

variable {nodes : NodeMap} {add : List Nat} {h₀ : NodeHeap}

/-- The object that `get_raft_node` finds for an id. -/
def pick (nodes : NodeMap) (add : List Nat) (h : NodeHeap) (id : Nat) : Option Nat :=
  (nodes.lookup id).or (add.find? fun r => (h.obj r).id = id)

theorem getRaftNode_eq (h : NodeHeap) (id : Nat) : getRaftNode nodes add h id =
    match pick nodes add h id with
    | some r => (r, h)
    | none => (h.next, h.alloc { id := id }) := by
  unfold getRaftNode pick
  cases nodes.lookup id with
  | some r => rfl
  | none => simp only [Option.none_or]

/-- What is found does not depend on objects made since. -/
theorem pick_congr (nodes : NodeMap) {h : NodeHeap} (hadd : ∀ r ∈ add, r < h₀.next)
    (hsame : ∀ r < h₀.next, h.obj r = h₀.obj r) (id : Nat) :
    pick nodes add h id = pick nodes add h₀ id := by
  unfold pick
  rw [List.find?_congr fun r hr => by rw [hsame r (hadd r hr)]]

theorem Built.addNode (hadd : ∀ r ∈ add, r < h₀.next) {ids : List Nat} {s : NodeHeap × NodeMap}
    (h : Built (pick nodes add h₀) h₀ ids s) (info : NodeInfo) :
    Built (pick nodes add h₀) h₀ (ids ++ [info.nodeId]) (addNode nodes add s info) := by
  have hpick := pick_congr nodes hadd h.same info.nodeId
  have hkeys : ∀ (r id : Nat), ((s.2.emplace info.nodeId r).lookup id).isSome ↔ id ∈ ids ++ [info.nodeId] := by
    intro r id
    rw [lookup_emplace, List.mem_append, List.mem_singleton, ← h.keys id]
    by_cases hid : id = info.nodeId <;> simp [hid]
  unfold RaftNodes.addNode
  rw [getRaftNode_eq, hpick]
  cases hp : pick nodes add h₀ info.nodeId with
  | some r =>
    refine ⟨h.grows, h.same, hkeys r, fun id r' hr' => ?_⟩
    rcases of_lookup_emplace hr' with ⟨rfl, rfl⟩ | hr'
    · exact .inl hp
    · exact h.value id r' hr'
  | none =>
    have hold : ∀ r < s.1.next, (s.1.alloc { id := info.nodeId }).obj r = s.1.obj r := fun r hr => by
      simp [NodeHeap.alloc, Nat.ne_of_lt hr]
    have hnext : (s.1.alloc { id := info.nodeId }).next = s.1.next + 1 := rfl
    have hgrows := h.grows
    refine ⟨Nat.le_succ_of_le hgrows, fun r hr => (hold r (by omega)).trans (h.same r hr), hkeys _,
      fun id r' hr' => ?_⟩
    have hkeep : s.2.lookup id = some r' → pick nodes add h₀ id = some r' ∨ pick nodes add h₀ id = none ∧
        h₀.next ≤ r' ∧ r' < (s.1.alloc { id := info.nodeId }).next ∧
          (s.1.alloc { id := info.nodeId }).obj r' = { id := id } := by
      intro hl
      refine (h.value id r' hl).imp_right fun hv => ⟨hv.1, hv.2.1, by omega, ?_⟩
      rw [hold r' hv.2.2.1]
      exact hv.2.2.2
    rcases of_lookup_emplace hr' with ⟨rfl, rfl⟩ | hr'
    · exact .inr ⟨hp, hgrows, Nat.lt_succ_self _, by simp [NodeHeap.alloc]⟩
    · exact hkeep hr'

theorem Built.loop (hadd : ∀ r ∈ add, r < h₀.next) {ids : List Nat} {s : NodeHeap × NodeMap}
    (h : Built (pick nodes add h₀) h₀ ids s) (infos : List NodeInfo) :
    Built (pick nodes add h₀) h₀ (ids ++ infos.map (·.nodeId)) (infos.foldl (RaftNodes.addNode nodes add) s) := by
  induction infos generalizing ids s with
  | nil => simpa using h
  | cons info infos ih => simpa using ih (h.addNode hadd info)

end Loop

/-! ## One update -/

/-- Addresses are those of objects, the objects have the ids they are filed
under, and a node of both sets is one object. -/
structure WellFormed (s : RaftNodes) : Prop where
  alloc : ∀ id r, s.Has id r → r < s.heap.next ∧ (s.heap.obj r).id = id
  shared : s.Shared

section Update

variable {s : RaftNodes} {cfg : NodeConfiguration} {add : List Nat}

/-- What an update leaves: `_nodes` first, then `_new_nodes` with objects
made later. -/
theorem update_built (cfg : NodeConfiguration) (hadd : ∀ r ∈ add, r < s.heap.next) :
    ∃ h₁, Built (pick s.nodes add s.heap) s.heap (cfg.nodes.map (·.nodeId))
        (h₁, (s.updateWithNodeConfiguration cfg add).nodes) ∧
      Built (pick s.nodes add s.heap) h₁ (cfg.newNodes.map (·.nodeId))
        ((s.updateWithNodeConfiguration cfg add).heap, (s.updateWithNodeConfiguration cfg add).newNodes) := by
  have hstart : ∀ h : NodeHeap, ∀ pick, Built pick h [] (h, []) := fun h pick =>
    ⟨Nat.le_refl _, fun _ _ => rfl, by simp, by simp⟩
  have h₁ := (hstart s.heap (pick s.nodes add s.heap)).loop hadd cfg.nodes
  rw [List.nil_append] at h₁
  let m₁ := cfg.nodes.foldl (addNode s.nodes add) (s.heap, [])
  have hadd₁ : ∀ r ∈ add, r < m₁.1.next := fun r hr => Nat.lt_of_lt_of_le (hadd r hr) h₁.grows
  have hpick : pick s.nodes add m₁.1 = pick s.nodes add s.heap := funext (pick_congr s.nodes hadd h₁.same)
  have h₂ := (hstart m₁.1 (pick s.nodes add m₁.1)).loop hadd₁ cfg.newNodes
  rw [List.nil_append, hpick] at h₂
  exact ⟨m₁.1, h₁, h₂⟩

/-- An object of the sets after an update was found, or is new and knows
nothing. -/
theorem Has.cases (hadd : ∀ r ∈ add, r < s.heap.next) {id r : Nat}
    (h : (s.updateWithNodeConfiguration cfg add).Has id r) :
    id ∈ cfg.nodes.map (·.nodeId) ++ cfg.newNodes.map (·.nodeId) ∧
      (pick s.nodes add s.heap id = some r ∨ pick s.nodes add s.heap id = none ∧ s.heap.next ≤ r ∧
        r < (s.updateWithNodeConfiguration cfg add).heap.next ∧
        (s.updateWithNodeConfiguration cfg add).heap.obj r = { id := id }) := by
  obtain ⟨h₁, hb₁, hb₂⟩ := update_built cfg hadd
  rcases h with h | h
  · refine ⟨List.mem_append_left _ ((hb₁.keys id).mp (by simp [h])), ?_⟩
    refine (hb₁.value id r h).imp_right fun hv => ⟨hv.1, hv.2.1, Nat.lt_of_lt_of_le hv.2.2.1 hb₂.grows, ?_⟩
    exact (hb₂.same r hv.2.2.1).trans hv.2.2.2
  · refine ⟨List.mem_append_right _ ((hb₂.keys id).mp (by simp [h])), ?_⟩
    exact (hb₂.value id r h).imp_right fun hv => ⟨hv.1, hb₁.grows.trans hv.2.1, hv.2.2⟩

/-- Old objects are as they were. -/
theorem update_heap_old (hadd : ∀ r ∈ add, r < s.heap.next) {r : Nat} (hr : r < s.heap.next) :
    (s.updateWithNodeConfiguration cfg add).heap.obj r = s.heap.obj r := by
  obtain ⟨h₁, hb₁, hb₂⟩ := update_built cfg hadd
  exact (hb₂.same r (Nat.lt_of_lt_of_le hr hb₁.grows)).trans (hb₁.same r hr)

theorem update_next (hadd : ∀ r ∈ add, r < s.heap.next) :
    s.heap.next ≤ (s.updateWithNodeConfiguration cfg add).heap.next := by
  obtain ⟨h₁, hb₁, hb₂⟩ := update_built cfg hadd
  exact hb₁.grows.trans hb₂.grows

/-- The sets are shared exactly if no node of both lists had to be made
twice. -/
theorem update_shared_iff (hadd : ∀ r ∈ add, r < s.heap.next) : (s.updateWithNodeConfiguration cfg add).Shared ↔
    ∀ id ∈ cfg.nodes.map (·.nodeId), id ∈ cfg.newNodes.map (·.nodeId) → (pick s.nodes add s.heap id).isSome := by
  obtain ⟨h₁, hb₁, hb₂⟩ := update_built cfg hadd
  constructor
  · intro hs id hid hid'
    obtain ⟨r, hr⟩ := Option.isSome_iff_exists.mp ((hb₁.keys id).mpr hid)
    obtain ⟨r', hr'⟩ := Option.isSome_iff_exists.mp ((hb₂.keys id).mpr hid')
    obtain rfl := hs id r r' hr hr'
    rcases hb₁.value id r hr with hp | ⟨hp, -, hlt, -⟩
    · simp [hp]
    · rcases hb₂.value id r hr' with hp' | ⟨-, hge, -⟩
      · simp [hp'] at hp
      · exact absurd hlt (Nat.not_lt.mpr hge)
  · intro hsome id r r' hr hr'
    have hp := hsome id ((hb₁.keys id).mp (by simp [hr])) ((hb₂.keys id).mp (by simp [hr']))
    obtain ⟨x, hx⟩ := Option.isSome_iff_exists.mp hp
    have h1 := (hb₁.value id r hr).resolve_right (by simp [hx])
    have h2 := (hb₂.value id r' hr').resolve_right (by simp [hx])
    exact Option.some.inj (h1.symm.trans h2)

theorem pick_eq (s : RaftNodes) (add : List Nat) (id : Nat) :
    pick s.nodes add s.heap id = (s.nodes.lookup id).or (s.added add id) := rfl

/-- The node found for `id`, or else a new one. -/
def found (s : RaftNodes) (add : List Nat) (id : Nat) : RaftNode :=
  ((pick s.nodes add s.heap id).map s.heap.obj).getD { id := id }

/-- The object of a node after an update is as the one found for it. -/
theorem Has.obj_eq (hwf : s.WellFormed) (hadd : ∀ r ∈ add, r < s.heap.next) {id r : Nat}
    (h : (s.updateWithNodeConfiguration cfg add).Has id r) :
    (s.updateWithNodeConfiguration cfg add).heap.obj r = s.found add id := by
  unfold found
  rcases (h.cases hadd).2 with hp | ⟨hp, -, -, hobj⟩
  · have hr : r < s.heap.next := by
      rw [pick_eq] at hp
      rcases Option.or_eq_some_iff.mp hp with hp | ⟨-, hp⟩
      · exact (hwf.alloc id r (.inl hp)).1
      · exact hadd r (List.mem_of_find?_eq_some hp)
    rw [update_heap_old hadd hr, hp]
    rfl
  · rw [hobj, hp]
    rfl

theorem keeps_iff (hwf : s.WellFormed) (hadd : ∀ r ∈ add, r < s.heap.next) :
    Keeps s cfg (s.updateWithNodeConfiguration cfg add) ↔ s.Suits cfg add := by
  obtain ⟨h₁, hb₁, hb₂⟩ := update_built cfg hadd
  have hboth : (s.updateWithNodeConfiguration cfg add).Shared ↔ ∀ id ∈ cfg.nodes.map (·.nodeId),
      id ∈ cfg.newNodes.map (·.nodeId) → (s.nodes.lookup id).isSome ∨ (s.added add id).isSome := by
    rw [update_shared_iff hadd]
    simp only [pick_eq, Option.isSome_or, Bool.or_eq_true]
  constructor
  · intro hk
    refine ⟨hboth.mp hk.shared, fun id r hr hno hid => ?_⟩
    -- the configuration has the id, so one of the sets has an object for it
    obtain ⟨r', hr'⟩ : ∃ r', (s.updateWithNodeConfiguration cfg add).Has id r' := by
      rcases List.mem_append.mp hid with hid | hid
      · obtain ⟨r', hr'⟩ := Option.isSome_iff_exists.mp ((hb₁.keys id).mpr hid)
        exact ⟨r', .inl hr'⟩
      · obtain ⟨r', hr'⟩ := Option.isSome_iff_exists.mp ((hb₂.keys id).mpr hid)
        exact ⟨r', .inr hr'⟩
    have hprog := hk.progress id r r' (.inr hr) hr'
    rw [hr'.obj_eq hwf hadd, found, pick_eq, hno, Option.none_or] at hprog
    exact hprog
  · intro hs
    refine ⟨hb₁.keys, hb₂.keys, hboth.mpr hs.both, fun id r r' hr hr' => ?_⟩
    rw [hr'.obj_eq hwf hadd, found, pick_eq]
    cases hl : s.nodes.lookup id with
    | some x =>
      obtain rfl : x = r := by
        rcases hr with hr | hr
        · exact Option.some.inj (hl.symm.trans hr)
        · exact hwf.shared id x r hl hr
      rfl
    | none =>
      rw [Option.none_or]
      exact hs.onlyNew id r (hr.resolve_left (by simp [hl])) hl (hr'.cases hadd).1

theorem WellFormed.update (hwf : s.WellFormed) (hadd : ∀ r ∈ add, r < s.heap.next) (hs : s.Suits cfg add) :
    (s.updateWithNodeConfiguration cfg add).WellFormed := by
  refine ⟨fun id r hr => ?_, ((keeps_iff hwf hadd).mpr hs).shared⟩
  rcases (hr.cases hadd).2 with hp | ⟨-, -, hlt, hobj⟩
  · have hold : r < s.heap.next ∧ (s.heap.obj r).id = id := by
      rw [pick_eq] at hp
      rcases Option.or_eq_some_iff.mp hp with hp | ⟨-, hp⟩
      · exact hwf.alloc id r (.inl hp)
      · exact ⟨hadd r (List.mem_of_find?_eq_some hp), by simpa using List.find?_some hp⟩
    exact ⟨Nat.lt_of_lt_of_le hold.1 (update_next hadd), by rw [update_heap_old hadd hold.1]; exact hold.2⟩
  · exact ⟨hlt, by rw [hobj]⟩

end Update

theorem wellFormed_reachable {s : RaftNodes} (hr : (lts.restrict Allowed).Reachable s) : s.WellFormed := by
  have hI : (lts.restrict Allowed).Inductive WellFormed := by
    refine ⟨?_, ?_⟩
    · intro s h0
      obtain rfl : s = {} := h0
      exact ⟨by simp [Has], by simp [Shared]⟩
    · intro s l s' hwf hs
      obtain ⟨hG, hs⟩ := hs
      cases l with
      | update cfg add =>
        simp only [lts, step?] at hs
        split at hs
        · next hadd =>
          obtain rfl := Option.some.inj hs
          exact hwf.update hadd hG
        · cases hs
      | create id =>
        obtain rfl := Option.some.inj hs
        refine ⟨fun i r hr => ?_, hwf.shared⟩
        obtain ⟨hlt, hid⟩ := hwf.alloc i r hr
        exact ⟨Nat.lt_succ_of_lt hlt, by simpa [NodeHeap.alloc, Nat.ne_of_lt hlt] using hid⟩
      | learn r₀ p =>
        simp only [lts, step?] at hs
        split at hs
        · next hp =>
          obtain rfl := Option.some.inj hs
          refine ⟨fun i r hr => ?_, hwf.shared⟩
          obtain ⟨hlt, hid⟩ := hwf.alloc i r hr
          refine ⟨hlt, ?_⟩
          by_cases h0 : r = r₀
          · subst h0
            simpa [hp] using hid
          · simpa [h0] using hid
        · cases hs
  exact hI.reachable hr

/-! ## Updates along a run -/

/-- **Reconfiguration keeps replication progress.** Where a run of updates
that all suit has come to, the next update keeps ids, sharing and progress
exactly if it suits. -/
theorem update_keeps_iff (s : RaftNodes) (hr : (lts.restrict Allowed).Reachable s) (cfg : NodeConfiguration)
    (add : List Nat) (hadd : ∀ r ∈ add, r < s.heap.next) :
    Keeps s cfg (s.updateWithNodeConfiguration cfg add) ↔ s.Suits cfg add :=
  keeps_iff (wellFormed_reachable hr) hadd

/-! ## A change of one member -/

/-- Nodes 1 and 2. -/
def pair : RaftNodes := updateWithNodeConfiguration {} { nodes := [⟨1, [], 0⟩, ⟨2, [], 0⟩] } []

/-- Node 3 is made; it is to take the place of node 2. -/
def catching : RaftNodes := { pair with heap := pair.heap.alloc { id := 3 } }

def jointConfiguration : NodeConfiguration :=
  { nodes := [⟨1, [], 0⟩, ⟨2, [], 0⟩], newNodes := [⟨1, [], 0⟩, ⟨3, [], 0⟩] }

/-- The joint phase, with node 3 at the address 2. -/
def joint : RaftNodes := catching.updateWithNodeConfiguration jointConfiguration [2]

/-- Node 3 has the entries up to 7. -/
def matched : RaftNodes :=
  { joint with heap :=
    { joint.heap with obj := Function.update joint.heap.obj 2 { id := 3, matchIdx := 7, nextIdx := 8 } } }

theorem step?_update {s : RaftNodes} {add : List Nat} (hadd : ∀ r ∈ add, r < s.heap.next) (cfg : NodeConfiguration) :
    s.step? (.update cfg add) = some (s.updateWithNodeConfiguration cfg add) := if_pos hadd

theorem reachable_catching : (lts.restrict Allowed).Reachable catching := by
  have hpair : (lts.restrict Allowed).Reachable pair :=
    Lts.Reachable.step (l := .update { nodes := [⟨1, [], 0⟩, ⟨2, [], 0⟩] } []) (.of_init rfl)
      ⟨⟨by simp, by simp⟩, step?_update (by simp) _⟩
  exact hpair.step (l := .create 3) ⟨trivial, rfl⟩

theorem suits_joint : catching.Suits jointConfiguration [2] :=
  ⟨by decide, fun id r hr => by simp [catching, pair, updateWithNodeConfiguration] at hr⟩

theorem reachable_matched : (lts.restrict Allowed).Reachable matched := by
  have hjoint : (lts.restrict Allowed).Reachable joint :=
    reachable_catching.step (l := .update jointConfiguration [2]) ⟨suits_joint, step?_update (by decide) _⟩
  exact hjoint.step (l := .learn 2 { id := 3, matchIdx := 7, nextIdx := 8 }) ⟨trivial, rfl⟩

theorem update_keeps_joint :
    Keeps catching jointConfiguration (catching.updateWithNodeConfiguration jointConfiguration [2]) ↔
      catching.Suits jointConfiguration [2] :=
  update_keeps_iff catching reachable_catching jointConfiguration [2] (by decide)

/-- The configuration that ends the joint phase comes without added nodes,
as on a follower (raft_server.cc:1294): node 3 is made anew, and its match
index is 0. -/
theorem final_configuration_loses_progress :
    (lts.restrict Allowed).Reachable matched ∧ matched.Has 3 2 ∧ (matched.heap.obj 2).matchIdx = 7 ∧
      (let s' := matched.updateWithNodeConfiguration { nodes := [⟨1, [], 0⟩, ⟨3, [], 0⟩] } []
       s'.Has 3 3 ∧ (s'.heap.obj 3).matchIdx = 0 ∧ ¬ Keeps matched { nodes := [⟨1, [], 0⟩, ⟨3, [], 0⟩] } s') := by
  have hold : matched.Has 3 2 := .inr (by decide)
  have hnew : (matched.updateWithNodeConfiguration { nodes := [⟨1, [], 0⟩, ⟨3, [], 0⟩] } []).Has 3 3 :=
    .inl (by decide)
  refine ⟨reachable_matched, hold, by decide, hnew, by decide, fun hk => ?_⟩
  exact absurd (hk.progress 3 2 3 hold hnew) (by decide)

end RaftNodes
end Fastblock.L3.Raft
