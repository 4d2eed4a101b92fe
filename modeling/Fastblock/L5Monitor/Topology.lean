import Mathlib.Data.List.Sort
import Fastblock.Core.Decimal
import Fastblock.Core.Groups
import Fastblock.L5Monitor.Pg

/-!
# The tree of OSDs

`GetOSDTree` (monitor/osd/topology.go:128-268) builds the buckets of the
levels host, rack and root over the OSDs that are up and in, and
`FlattenTree` (monitor/osd/calculator.go:84-205) makes a list of failure
domains of it. The iterations over maps do not matter: what they give is
sorted.
-/
namespace Fastblock.L5

open Fastblock.Core (decimal groups)

/-- `Level`; a failure domain of another name has no bucket. -/
inductive Level
  | osd
  | host
  | rack
  | root
  deriving DecidableEq, Repr

/-- `OSDInfo`, what the tree is built from. -/
structure Osd where
  osdid : Nat
  host : Bytes
  size : Nat
  coreNum : Nat
  isUp : Bool
  isIn : Bool
  deriving DecidableEq, Repr

/-- `BucketConfig` -/
structure BucketConfig where
  name : Bytes
  parentName : Bytes
  level : Level
  deriving DecidableEq, Repr

/-- `AllOSDInfo.Osdinfo`, `AllHostsMap` and `AllRacksMap`. -/
structure Topology where
  osds : List Osd
  osdids : (osds.map (·.osdid)).Nodup
  hosts : List BucketConfig
  hostNames : (hosts.map (·.name)).Nodup
  racks : List BucketConfig
  rackNames : (racks.map (·.name)).Nodup

def Topology.infos (t : Topology) : OsdInfos := fun id =>
  (t.osds.find? (·.osdid = id)).map fun o => ⟨o.isUp, o.isIn⟩

/-! ## GetOSDTree -/

/-- A bucket: its name and the OSDs below it. -/
abbrev Bucket := Bytes × List Osd

structure HostNode where
  name : Bytes
  osds : List Osd

structure RackNode where
  name : Bytes
  hosts : List HostNode

structure RootNode where
  name : Bytes
  racks : List RackNode

/-- `treeMap` -/
structure OsdTree where
  osds : List Osd
  hosts : List HostNode
  racks : List RackNode
  roots : List RootNode

/-- `GetOSDTree` -/
def getOSDTree (t : Topology) (onlyUp onlyIn : Bool) : OsdTree :=
  let osds := t.osds.filter fun o => (o.isUp || !onlyUp) && (o.isIn || !onlyIn)
  let hosts := (groups (osds.map fun o => (o.host, o))).map fun g => HostNode.mk g.1 g.2
  let racks := (groups ((t.hosts.filter (·.level = .host)).filterMap fun c =>
    (hosts.find? (·.name = c.name)).map fun h => (c.parentName, h))).map fun g => RackNode.mk g.1 g.2
  let roots := (groups ((t.racks.filter (·.level = .rack)).filterMap fun c =>
    (racks.find? (·.name = c.name)).map fun r => (c.parentName, r))).map fun g => RootNode.mk g.1 g.2
  ⟨osds, hosts, racks, roots⟩

/-! ## FlattenTree -/

def Osd.bucket (o : Osd) : Bucket := (decimal o.osdid, [o])

def HostNode.bucket (h : HostNode) : Bucket := (h.name, h.osds)

def RackNode.bucket (r : RackNode) : Bucket := (r.name, r.hosts.flatMap (·.osds))

def RootNode.bucket (r : RootNode) : Bucket := (r.name, r.racks.flatMap fun k => k.hosts.flatMap (·.osds))

/-- `poolRootTraversal` -/
def HostNode.traversal (failureDomain : Level) (h : HostNode) : List Bucket :=
  match failureDomain with
  | .host => [h.bucket]
  | .osd => h.osds.map Osd.bucket
  | .rack | .root => []

@[inherit_doc HostNode.traversal]
def RackNode.traversal (failureDomain : Level) (r : RackNode) : List Bucket :=
  match failureDomain with
  | .rack => [r.bucket]
  | level => r.hosts.flatMap (·.traversal level)

@[inherit_doc HostNode.traversal]
def RootNode.traversal (failureDomain : Level) (r : RootNode) : List Bucket :=
  match failureDomain with
  | .root => [r.bucket]
  | level => r.racks.flatMap (·.traversal level)

/-- `treeMap[level]` -/
def OsdTree.level (t : OsdTree) : Level → List Bucket
  | .osd => t.osds.map Osd.bucket
  | .host => t.hosts.map HostNode.bucket
  | .rack => t.racks.map RackNode.bucket
  | .root => t.roots.map RootNode.bucket

/-- `GetFailureDomainNum` -/
def getFailureDomainNum (t : OsdTree) (failureDomain : Level) : Nat := (t.level failureDomain).length

/-- The buckets of the failure domain, below the root of the pool if there
is one. -/
def OsdTree.domains (t : OsdTree) (failureDomain : Level) (poolRoot : Bytes) : List Bucket :=
  if poolRoot = [] then t.level failureDomain
  else
    match t.hosts.find? (·.name = poolRoot) with
    | some h => h.traversal failureDomain
    | none =>
      match t.racks.find? (·.name = poolRoot) with
      | some r => r.traversal failureDomain
      | none =>
        match t.roots.find? (·.name = poolRoot) with
        | some r => r.traversal failureDomain
        | none => t.level failureDomain

/-- The order of the OSDs of a domain: by weight, which is the size in GiB,
and by id. -/
def Osd.before (a b : Osd) : Prop := a.size < b.size ∨ a.size = b.size ∧ a.osdid ≤ b.osdid

instance : DecidableRel Osd.before := fun _ _ => inferInstanceAs (Decidable (_ ∨ _))

def Bucket.node (b : Bucket) : DomainNode :=
  ⟨b.1, (b.2.insertionSort Osd.before).map fun o => ⟨o.osdid, o.coreNum⟩⟩

/-- `FlattenTree`; `none` is a nil tree. -/
def flattenTree (t : OsdTree) (failureDomain : Level) (poolRoot : Bytes) : Option (List DomainNode) :=
  let tree := t.domains failureDomain poolRoot
  if tree = [] then none else some ((tree.map Bucket.node).insertionSort (·.domainName ≤ ·.domainName))

end Fastblock.L5
