import Fastblock.L1Blob.SpdkBuffer
import Mathlib.Algebra.Order.BigOperators.Group.List
import Mathlib.Data.List.DropRight

/-!
# The configurations of a group and their copy in the kvstore

A `node_configuration_manager` keeps every configuration in a deque and
writes the whole deque to the kvstore each time one is added or some are
truncated (src/raft/configuration_manager.h:125-129,
configuration_manager.cc:272-434). The deque is encoded in a buffer of 1
MiB. Once it no longer fits, `serialize` fails, nothing is written and the
caller does not look at the result: what a restart loads is the deque as
it was before (`load_restores_iff_fits`).

`int32` and `long` values are given by their unsigned bits.
-/
namespace Fastblock.L3.Raft

open Fastblock.Core Fastblock.L1

/-- `raft_node_info`, proto/common_msg.proto:14-19 -/
structure NodeInfo where
  nodeId : Nat
  addr : List UInt8 := []
  port : Nat := 0
  deriving DecidableEq, Repr

/-- configuration_manager.h:26-104. During a change `newNodes` are the
members after it. -/
structure NodeConfiguration where
  index : Nat := 0
  term : Nat := 0
  nodes : List NodeInfo := []
  newNodes : List NodeInfo := []
  deriving DecidableEq, Repr

/-! ## The format -/

section

variable (cap : Nat)

/-- One member, as in both loops of `serialize`,
configuration_manager.cc:339-345. -/
def putMember (node : NodeInfo) : Writer := do
  putFixed32 cap node.nodeId
  putString cap node.addr
  putFixed32 cap node.port

def putMembers (nodes : List NodeInfo) : Writer := do
  putFixed32 cap nodes.length
  nodes.forM (putMember cap)

/-- mirrors configuration_manager.cc:328-358 -/
def putConfiguration (cfg : NodeConfiguration) : Writer := do
  putFixed64 cap cfg.index
  putFixed64 cap cfg.term
  putMembers cap cfg.nodes
  putMembers cap cfg.newNodes

def putConfigurations (cfgs : List NodeConfiguration) : Writer := do
  putFixed32 cap cfgs.length
  cfgs.forM (putConfiguration cap)

end

/-- The bytes of a member in the buffer. -/
def NodeInfo.bytes (n : NodeInfo) : List UInt8 :=
  leBytes 4 n.nodeId ++ (stringBytes n.addr ++ leBytes 4 n.port)

def nodesBytes (nodes : List NodeInfo) : List UInt8 := leBytes 4 nodes.length ++ nodes.flatMap NodeInfo.bytes

def NodeConfiguration.bytes (c : NodeConfiguration) : List UInt8 :=
  leBytes 8 c.index ++ (leBytes 8 c.term ++ (nodesBytes c.nodes ++ nodesBytes c.newNodes))

def configurationsBytes (cfgs : List NodeConfiguration) : List UInt8 :=
  leBytes 4 cfgs.length ++ cfgs.flatMap NodeConfiguration.bytes

theorem writes_putMember (cap : Nat) (n : NodeInfo) : Writes cap (putMember cap n) n.bytes :=
  (Writes.put _).bind ((Writes.put _).bind (.put _))

theorem writes_putMembers (cap : Nat) (nodes : List NodeInfo) : Writes cap (putMembers cap nodes) (nodesBytes nodes) :=
  (Writes.put _).bind (.forM (writes_putMember cap) nodes)

theorem writes_putConfiguration (cap : Nat) (c : NodeConfiguration) :
    Writes cap (putConfiguration cap c) c.bytes :=
  (Writes.put _).bind ((Writes.put _).bind ((writes_putMembers cap _).bind (writes_putMembers cap _)))

theorem writes_putConfigurations (cap : Nat) (cfgs : List NodeConfiguration) :
    Writes cap (putConfigurations cap cfgs) (configurationsBytes cfgs) :=
  (Writes.put _).bind (.forM (writes_putConfiguration cap) cfgs)

/-- `1_MB` -/
def serializeSize : Nat := 2 ^ 20

/-- mirrors configuration_manager.cc:313-362 -/
def serialize (cfgs : List NodeConfiguration) : Option (List UInt8) :=
  ((putConfigurations serializeSize cfgs).run []).map (·.2)

def getMember : Reader NodeInfo := do
  let nodeId ← getFixed32
  let addr ← getString
  let port ← getFixed32
  return ⟨nodeId, addr, port⟩

def getMembers : Reader (List NodeInfo) := do
  let nodeSize ← getFixed32
  getMember.times nodeSize

/-- mirrors configuration_manager.cc:378-431 -/
def getConfiguration : Reader NodeConfiguration := do
  let index ← getFixed64
  let term ← getFixed64
  let nodes ← getMembers
  let newNodes ← getMembers
  return ⟨index, term, nodes, newNodes⟩

def getConfigurations : Reader (List NodeConfiguration) := do
  let cfgSize ← getFixed32
  getConfiguration.times cfgSize

/-- mirrors configuration_manager.cc:364-434 on an empty deque; a failure
leaves it empty. -/
def deserialize (data : List UInt8) : List NodeConfiguration :=
  ((getConfigurations.run data).map (·.1)).getD []

/-! ## Sizes -/

def NodeInfo.size (n : NodeInfo) : Nat := 16 + n.addr.length

def NodeConfiguration.size (c : NodeConfiguration) : Nat :=
  24 + (c.nodes.map NodeInfo.size).sum + (c.newNodes.map NodeInfo.size).sum

/-- The bytes `serialize` needs: 4, and for each configuration 24 and for
each of its members 16 and the length of the address. -/
def encodedSize (cfgs : List NodeConfiguration) : Nat := 4 + (cfgs.map NodeConfiguration.size).sum

theorem NodeInfo.length_bytes (n : NodeInfo) : n.bytes.length = n.size := by
  simp only [NodeInfo.bytes, NodeInfo.size, List.length_append, length_leBytes, length_stringBytes]
  omega

theorem length_nodesBytes (nodes : List NodeInfo) :
    (nodesBytes nodes).length = 4 + (nodes.map NodeInfo.size).sum := by
  rw [nodesBytes, List.length_append, length_leBytes, List.length_flatMap]
  simp only [NodeInfo.length_bytes]

theorem NodeConfiguration.length_bytes (c : NodeConfiguration) : c.bytes.length = c.size := by
  simp only [NodeConfiguration.bytes, NodeConfiguration.size, List.length_append, length_leBytes, length_nodesBytes]
  omega

theorem length_configurationsBytes (cfgs : List NodeConfiguration) :
    (configurationsBytes cfgs).length = encodedSize cfgs := by
  rw [configurationsBytes, List.length_append, length_leBytes, List.length_flatMap]
  simp only [NodeConfiguration.length_bytes]
  rfl

theorem serialize_eq (cfgs : List NodeConfiguration) : serialize cfgs =
    if encodedSize cfgs ≤ serializeSize then some (configurationsBytes cfgs) else none := by
  rw [serialize, (writes_putConfigurations _ cfgs).run_nil, length_configurationsBytes]
  split <;> rfl

theorem length_le_sum_map {α : Type} {f : α → Nat} {as : List α} (h : ∀ a ∈ as, 1 ≤ f a) :
    as.length ≤ (as.map f).sum := by
  simpa using List.length_le_sum_of_one_le (as.map f) (by simpa using h)

/-! ## Reading back -/

/-- The values are those of an `int32`. -/
def NodeInfo.InRange (n : NodeInfo) : Prop := n.nodeId < 2 ^ 32 ∧ n.port < 2 ^ 32

/-- The index and the term are values of a `long`. -/
@[mk_iff inRange_iff]
structure NodeConfiguration.InRange (c : NodeConfiguration) : Prop where
  index : c.index < 2 ^ 64
  term : c.term < 2 ^ 64
  nodes : ∀ n ∈ c.nodes, n.InRange
  newNodes : ∀ n ∈ c.newNodes, n.InRange

theorem reads_getMember {n : NodeInfo} (h : n.InRange) (hs : n.size < 2 ^ 32) : Reads getMember n.bytes n := by
  have haddr : n.addr.length < 2 ^ 64 := by unfold NodeInfo.size at hs; omega
  exact (reads_getFixed32 h.1).bind ((reads_getString haddr).bind (reads_getFixed32 h.2).map)

theorem reads_getMembers {nodes : List NodeInfo} (h : ∀ n ∈ nodes, n.InRange)
    (hs : (nodes.map NodeInfo.size).sum < 2 ^ 32) : Reads getMembers (nodesBytes nodes) nodes := by
  have hlen : nodes.length < 2 ^ 32 :=
    (length_le_sum_map fun n _ => by unfold NodeInfo.size; omega).trans_lt hs
  refine (reads_getFixed32 hlen).bind (.times fun n hn => reads_getMember (h n hn) ?_)
  exact (List.single_le_sum (by simp) _ (List.mem_map_of_mem hn)).trans_lt hs

theorem reads_getConfiguration {c : NodeConfiguration} (h : c.InRange) (hs : c.size < 2 ^ 32) :
    Reads getConfiguration c.bytes c := by
  unfold NodeConfiguration.size at hs
  refine (reads_getFixed64 h.index).bind ((reads_getFixed64 h.term).bind ?_)
  exact (reads_getMembers h.nodes (by omega)).bind (reads_getMembers h.newNodes (by omega)).map

theorem reads_getConfigurations {cfgs : List NodeConfiguration} (h : ∀ c ∈ cfgs, c.InRange)
    (hs : encodedSize cfgs < 2 ^ 32) : Reads getConfigurations (configurationsBytes cfgs) cfgs := by
  unfold encodedSize at hs
  have hlen : cfgs.length < 2 ^ 32 :=
    (length_le_sum_map (f := NodeConfiguration.size) fun c _ => by unfold NodeConfiguration.size; omega).trans_lt
      (by omega)
  refine (reads_getFixed32 hlen).bind (.times fun c hc => reads_getConfiguration (h c hc) ?_)
  have := List.single_le_sum (by simp) _ (List.mem_map_of_mem (f := NodeConfiguration.size) hc)
  omega

/-- What was encoded in a buffer of 1 MiB is read back. -/
theorem deserialize_bytes {cfgs : List NodeConfiguration} (h : ∀ c ∈ cfgs, c.InRange)
    (hs : encodedSize cfgs ≤ serializeSize) : deserialize (configurationsBytes cfgs) = cfgs := by
  have := (reads_getConfigurations h (hs.trans_lt (by decide))).run_self
  rw [deserialize, this]
  rfl

/-! ## The manager -/

/-- The deque of a `node_configuration_manager`, and the value it last put
under `"<pool>.<pg>.node_cfg"`. -/
structure Configurations where
  cfgs : List NodeConfiguration := []
  saved : Option (List UInt8) := none
  deriving DecidableEq, Repr

namespace Configurations

/-- mirrors configuration_manager.cc:290-302; the callers ignore the
result. -/
def save (m : Configurations) : Configurations :=
  match serialize m.cfgs with
  | none => m
  | some value => { m with saved := some value }

/-- mirrors configuration_manager.h:125-128 -/
def add (m : Configurations) (cfg : NodeConfiguration) : Configurations :=
  save { m with cfgs := m.cfgs ++ [cfg] }

/-- mirrors configuration_manager.cc:272-288. If nothing is left, the source
takes `back()` of the empty deque for `update_nodes_stat` (283), which is
undefined behaviour; the deque and its copy are modelled, not the nodes. -/
def truncateByIdx (m : Configurations) (index : Nat) : Configurations :=
  let cfgs := m.cfgs.rdropWhile (index ≤ ·.index)
  if cfgs = m.cfgs then m else save { m with cfgs := cfgs }

/-- mirrors configuration_manager.cc:304-311 on an empty deque -/
def load (saved : Option (List UInt8)) : List NodeConfiguration :=
  match saved with
  | none => []
  | some data => deserialize data

inductive Call where
  | add (cfg : NodeConfiguration)
  | truncateByIdx (index : Nat)
  deriving DecidableEq, Repr

def call (m : Configurations) : Call → Configurations
  | .add cfg => m.add cfg
  | .truncateByIdx index => m.truncateByIdx index

/-- A new manager after the calls `cs`. -/
def after (cs : List Call) : Configurations := cs.foldl call {}

/-! ## What is loaded -/

/-- The values of the call are those of the source's types. -/
def Call.InRange : Call → Prop
  | .add cfg => cfg.InRange
  | .truncateByIdx _ => True

/-- What holds between the deque and its copy: they agree if the deque fits,
and the copy itself always fits. -/
structure Kept (m : Configurations) : Prop where
  inRange : ∀ c ∈ m.cfgs, c.InRange
  loaded : encodedSize m.cfgs ≤ serializeSize → load m.saved = m.cfgs
  fits : encodedSize (load m.saved) ≤ serializeSize

@[simp] theorem cfgs_save (m : Configurations) : m.save.cfgs = m.cfgs := by
  unfold save
  split <;> rfl

theorem saved_save_of_fits {m : Configurations} (h : encodedSize m.cfgs ≤ serializeSize) :
    m.save.saved = some (configurationsBytes m.cfgs) := by
  rw [save, serialize_eq, if_pos h]

theorem save_of_not_fits {m : Configurations} (h : ¬encodedSize m.cfgs ≤ serializeSize) : m.save = m := by
  rw [save, serialize_eq, if_neg h]

/-- Saving puts the copy right; if it fails the older copy is still one that
fits. -/
theorem Kept.save {m : Configurations} (hr : ∀ c ∈ m.cfgs, c.InRange)
    (hf : encodedSize (load m.saved) ≤ serializeSize) : Kept m.save := by
  by_cases h : encodedSize m.cfgs ≤ serializeSize
  · have hload : load m.save.saved = m.cfgs := by
      rw [saved_save_of_fits h]
      exact deserialize_bytes hr h
    exact ⟨by rwa [cfgs_save], fun _ => by rw [hload, cfgs_save], by rwa [hload]⟩
  · rw [save_of_not_fits h]
    exact ⟨hr, fun h' => absurd h' h, hf⟩

theorem Kept.call {m : Configurations} (hm : Kept m) {c : Call} (hc : c.InRange) : Kept (m.call c) := by
  cases c with
  | add cfg =>
    refine Kept.save (m := { m with cfgs := m.cfgs ++ [cfg] }) (fun x hx => ?_) hm.fits
    rcases List.mem_append.mp hx with hx | hx
    · exact hm.inRange x hx
    · rw [List.mem_singleton.mp hx]
      exact hc
  | truncateByIdx index =>
    change Kept (m.truncateByIdx index)
    unfold truncateByIdx
    dsimp only
    split
    · exact hm
    · exact Kept.save (m := { m with cfgs := _ })
        (fun x hx => hm.inRange x ((List.rdropWhile_prefix _ m.cfgs).subset hx)) hm.fits

theorem Kept.empty : Kept {} where
  inRange := by simp
  loaded _ := rfl
  fits := by decide

theorem kept_after {cs : List Call} (h : ∀ c ∈ cs, c.InRange) : Kept (after cs) := by
  refine List.foldlRecOn cs call Kept.empty fun m hm c hc => hm.call (h c hc)

/-- After any calls, a restart loads the deque of the manager exactly if the
deque can be encoded in 1 MiB. -/
theorem load_restores_iff_fits (cs : List Call) (h : ∀ c ∈ cs, c.InRange) :
    load (after cs).saved = (after cs).cfgs ↔ encodedSize (after cs).cfgs ≤ serializeSize :=
  ⟨fun heq => heq ▸ (kept_after h).fits, (kept_after h).loaded⟩

/-- A change of members and its rollback. -/
def rolledBack : List Call :=
  [.add { nodes := [⟨1, [49], 0⟩, ⟨2, [50], 0⟩] },
   .add { index := 7, term := 2, nodes := [⟨1, [49], 0⟩, ⟨2, [50], 0⟩], newNodes := [⟨1, [49], 0⟩, ⟨3, [51], 9⟩] },
   .truncateByIdx 7]

theorem load_restores_rolledBack :
    (load (after rolledBack).saved = (after rolledBack).cfgs ↔ encodedSize (after rolledBack).cfgs ≤ serializeSize) ∧
      encodedSize (after rolledBack).cfgs ≤ serializeSize :=
  ⟨load_restores_iff_fits rolledBack (by
      simp [rolledBack, Call.InRange, NodeInfo.InRange, NodeConfiguration.inRange_iff]), by decide +kernel⟩

/-- One node with the address `addr`. -/
def onlyNode (addr : List UInt8) : NodeConfiguration := { nodes := [⟨1, addr, 0⟩] }

theorem encodedSize_onlyNode (addr : List UInt8) : encodedSize [onlyNode addr] = 44 + addr.length := by
  simp only [onlyNode, encodedSize, NodeConfiguration.size, NodeInfo.size, List.map_cons, List.map_nil, List.sum_cons,
    List.sum_nil]
  omega

/-- A configuration with an address of 1 MiB. -/
def longAddress : NodeConfiguration := onlyNode (List.replicate serializeSize 49)

theorem longAddress_not_fits : ¬encodedSize [longAddress] ≤ serializeSize := by
  rw [longAddress, encodedSize_onlyNode, List.length_replicate]
  omega

theorem after_add_of_not_fits {cfg : NodeConfiguration} (h : ¬encodedSize [cfg] ≤ serializeSize) :
    after [.add cfg] = { cfgs := [cfg] } := by
  rw [after, List.foldl_cons, List.foldl_nil]
  exact save_of_not_fits h

/-- It is in the deque of the manager, and its copy stays empty. -/
theorem longAddress_not_saved :
    load (after [.add longAddress]).saved ≠ (after [.add longAddress]).cfgs := by
  rw [after_add_of_not_fits longAddress_not_fits]
  exact (List.cons_ne_nil longAddress []).symm

end Configurations
end Fastblock.L3.Raft
