import Fastblock.L5Monitor.Image

/-!
# Placement groups in the monitor

The state bits of a PG (monitor/utils/pgstate.go,
monitor/osd/pool.go:113-171), its configuration, what the monitor knows
about OSDs, and the functions of both that several handlers use
(monitor/osd/calculator.go:1126-1131, 1190-1215).
-/
namespace Fastblock.L5

/-- One bit of `PGSTATE`. -/
inductive PgBit
  | creating
  | active
  | undersize
  | down
  | remapped
  deriving DecidableEq, Repr

structure PgState where
  creating : Bool := false
  active : Bool := false
  undersize : Bool := false
  down : Bool := false
  remapped : Bool := false
  deriving DecidableEq, Repr

namespace PgState

variable (s : PgState)

/-- `PgInState` -/
def inState : PgBit → Bool
  | .creating => s.creating
  | .active => s.active
  | .undersize => s.undersize
  | .down => s.down
  | .remapped => s.remapped

/-- `SetPgState` -/
def set : PgBit → PgState
  | .creating => { s with active := false, remapped := false, creating := true }
  | .active => { active := true }
  | .undersize => { s with active := false, down := false, undersize := true }
  | .down => { s with active := false, undersize := false, down := true }
  | .remapped => { s with active := false, creating := false, remapped := true }

/-- `UnsetPgState` -/
def unset : PgBit → PgState
  | .creating => { s with creating := false }
  | .active => { s with active := false }
  | .undersize => { s with undersize := false }
  | .down => { s with down := false }
  | .remapped => { s with remapped := false }

end PgState

/-- `PGConfig`. -/
structure PGConfig where
  version : Int := 0
  pgState : PgState := {}
  coreIndex : Nat := 0
  osdList : List Nat := []
  newCoreIndex : Nat := 0
  newOsdList : List Nat := []
  deriving DecidableEq, Repr

/-- `math.MaxUint32`, the core index of a PG that gets no new one. -/
def noCore : Nat := 2 ^ 32 - 1

structure OsdInfo where
  isUp : Bool
  isIn : Bool
  deriving DecidableEq, Repr

/-- `AllOSDInfo.Osdinfo` -/
abbrev OsdInfos := Nat → Option OsdInfo

def OsdInfos.isUp (osds : OsdInfos) (id : Nat) : Bool := (osds id).any (·.isUp)

def OsdInfos.isIn (osds : OsdInfos) (id : Nat) : Bool := (osds id).any (·.isIn)

/-- `CheckPgState`; `none` is the state 0. -/
def checkPgState (osds : OsdInfos) (osdList : List Nat) (pgSize : Nat) : Option PgBit :=
  let upNum := osdList.countP osds.isUp
  if upNum > pgSize / 2 ∧ upNum < pgSize then some .undersize
  else if upNum ≤ pgSize / 2 then some .down
  else none

/-- `getEffectivePGSize` -/
def getEffectivePGSize (pgSize domainNum : Nat) : Nat :=
  if domainNum * 2 < pgSize then 0 else if pgSize ≤ domainNum then pgSize else domainNum

/-- `TreeNode`: an OSD of a failure domain. -/
structure TreeNode where
  osdid : Nat
  coreNum : Nat
  deriving DecidableEq, Repr

/-- `DomainNode` -/
structure DomainNode where
  domainName : Bytes
  childNode : List TreeNode
  deriving DecidableEq, Repr

/-- The domain has the OSD. -/
def DomainNode.Has (d : DomainNode) (osd : Nat) : Prop := ∃ t ∈ d.childNode, t.osdid = osd

instance (d : DomainNode) (osd : Nat) : Decidable (d.Has osd) := inferInstanceAs (Decidable (∃ _ ∈ _, _))

/-- No OSD is in two failure domains. -/
def DisjointDomains (tree : List DomainNode) : Prop := tree.Pairwise fun d e => ∀ osd, d.Has osd → ¬ e.Has osd

theorem DisjointDomains.eq {tree : List DomainNode} (h : DisjointDomains tree) {i j : Nat} {d e : DomainNode}
    (hi : tree[i]? = some d) (hj : tree[j]? = some e) {osd : Nat} (hd : d.Has osd) (he : e.Has osd) : i = j := by
  obtain ⟨hilt, rfl⟩ := List.getElem?_eq_some_iff.mp hi
  obtain ⟨hjlt, rfl⟩ := List.getElem?_eq_some_iff.mp hj
  have hp := List.pairwise_iff_getElem.mp h
  rcases Nat.lt_trichotomy i j with hlt | heq | hgt
  · exact absurd he (hp i j hilt hjlt hlt osd hd)
  · exact heq
  · exact absurd hd (hp j i hjlt hilt hgt osd he)

/-- `Compare_arry` -/
def compareArry (arr1 arr2 : List Nat) : Bool :=
  arr1.length = arr2.length && arr2.all fun v => arr1.contains v

end Fastblock.L5
