import Fastblock.L5Monitor.SimpleInitial
import Fastblock.L5Monitor.Rebalance

/-!
# What the monitor does with a PG

The bodies of the handlers for one PG: OSDs go up, down, in and out
(`ProcessOsdDown` and the task `CheckPgs`, monitor/osd/osd.go:359-790,
monitor/osd/calculator.go:289-369), pools are created, and PGs report a
leader or new members (monitor/osd/pool.go:290-635, 847-863).
-/
namespace Fastblock.L5

/-- `STATESWITCH` of the tasks that `CheckPgs` runs. -/
inductive StateSwitch
  | inToOut
  | downToUp
  deriving DecidableEq, Repr

/-- The OSDs change, their ids do not. -/
def Topology.mapOsds (t : Topology) (f : Osd → Osd) : Topology :=
  { t with
    osds := t.osds.map fun o => { f o with osdid := o.osdid }
    osdids := by
      rw [List.map_map]
      exact t.osdids }

/-- One OSD changes. -/
def Topology.update (t : Topology) (id : Nat) (f : Osd → Osd) : Topology :=
  t.mapOsds fun o => if o.osdid = id then f o else o

/-! ## Steps for one PG -/

/-- The body of `ProcessOsdDown`. -/
def downPg (osds : OsdInfos) (pgSize osdid : Nat) (pg : PGConfig) : PGConfig :=
  if !pg.osdList.contains osdid then pg
  else if !pg.pgState.inState .undersize && !pg.pgState.inState .down then
    { pg with pgState := pg.pgState.set .undersize, version := pg.version + 1 }
  else if pg.pgState.inState .undersize && checkPgState osds pg.osdList pgSize = some .down then
    { pg with pgState := pg.pgState.set .down, version := pg.version + 1 }
  else pg

/-- `shouldChange` -/
def shouldChange (osds : OsdInfos) (osdList : List Nat) (pgSize osdid : Nat) : Bool :=
  let known := osdList.filterMap fun id => (osds id).map fun o => (id, o)
  let downNum := known.countP fun p => !p.2.isUp
  let outNum := known.countP fun p => !p.2.isIn
  let osdIsDownOut := known.any fun p => !p.2.isUp && !p.2.isIn && p.1 = osdid
  downNum ≥ 1 && downNum * 2 < pgSize && (downNum + 1) * 2 ≥ pgSize && outNum ≥ 1 && !(outNum = 1 && osdIsDownOut)

/-- What `CheckPgs` does last for an OSD that came up. -/
def recheckPg (osds : OsdInfos) (pgSize : Nat) (pg : PGConfig) : PGConfig :=
  match checkPgState osds pg.osdList pgSize with
  | none =>
    let state := (pg.pgState.unset .undersize).unset .down
    { pg with pgState := if !state.inState .creating && !state.inState .remapped then state.set .active else state }
  | some state => if !pg.pgState.inState state then { pg with pgState := pg.pgState.set state } else pg

/-- The body of `CheckPgs` up to the state of the PG: the PG, and whether it
gets a task. -/
def remapPg (t : Topology) (pools : List PoolConfig) (pool : PoolConfig) (osdid : Nat) (stateSwitch : StateSwitch)
    (ord : MapOrder (Bytes × Int)) (pg : PGConfig) : Except Fault (PGConfig × Bool) :=
  let redistribute := do return ((← redistributionPg t pools pool pg ord).getD pg, false)
  if pg.pgState.inState .remapped then .ok (pg, !pg.pgState.inState .down && stateSwitch = .inToOut)
  else if pg.pgState.inState .creating then
    if pg.pgState.inState .down then
      match stateSwitch with
      | .inToOut => do
        match ← redistributionPg t pools pool pg ord with
        | some pg => return ({ pg with pgState := (pg.pgState.unset .remapped).set .creating }, false)
        | none => return (pg, false)
      | .downToUp => .ok (pg, false)
    else .ok (pg, stateSwitch = .inToOut)
  else if !pg.pgState.inState .down then redistribute
  else if stateSwitch = .downToUp && shouldChange t.infos pg.osdList pool.pgSize osdid then redistribute
  else .ok (pg, false)

/-- The body of `CheckPgs`. -/
def checkPg (t : Topology) (pools : List PoolConfig) (pool : PoolConfig) (osdid : Nat) (stateSwitch : StateSwitch)
    (ord : MapOrder (Bytes × Int)) (pg : PGConfig) : Except Fault (PGConfig × Bool) :=
  if pg.osdList.contains osdid || (pg.pgState.inState .remapped && pg.newOsdList.contains osdid) then do
    let (pg, push) ← remapPg t pools pool osdid stateSwitch ord pg
    return (if stateSwitch = .downToUp then recheckPg t.infos pool.pgSize pg else pg, push)
  else .ok (pg, false)

/-- The loop of `CheckPgs` over the PGs of a pool. Its order does not
matter: a PG's turn reads `OsdList` of the others, which no turn
changes. -/
def checkPool (t : Topology) (pools : List PoolConfig) (pool : PoolConfig) (osdid : Nat) (stateSwitch : StateSwitch)
    (ord : Nat → MapOrder (Bytes × Int)) : List PGConfig → Nat → Except Fault (List (PGConfig × Bool))
  | [], _ => .ok []
  | pg :: pgs, i => do
    let checked ← checkPg t pools pool osdid stateSwitch (ord i) pg
    return checked :: (← checkPool t pools pool osdid stateSwitch ord pgs (i + 1))

/-! ## Jobs -/

inductive Job
  /-- `ProcessOsdDown` -/
  | osdDown (osdid : Nat)
  /-- `CheckPgs` -/
  | checkPgs (osdid : Nat) (stateSwitch : StateSwitch)
  deriving DecidableEq, Repr

/-- The random numbers of `SimpleInitial`: the permutation of the hosts, and
the draws for each member of a PG. -/
structure Choices where
  perm : List Nat
  draws : Nat → Nat → List Nat

/-! ## Pools, leaders and members -/

/-- `CreatePgs` -/
def createPgs (t : Topology) (size pgCount : Nat) (failureDomain : Level) (root : Bytes)
    (coreNum : Nat) (c : Choices) :
    InitialResult :=
  let osdTree := getOSDTree t false true
  let pgSize := getEffectivePGSize size (getFailureDomainNum osdTree failureDomain)
  if osdTree.osds.length < pgSize / 2 + 1 ∨ pgSize = 0 then .noEnoughHosts
  else simpleInitial ⟨(flattenTree osdTree failureDomain root).getD [], pgCount, pgSize, fun _ => none⟩ size coreNum
    t.infos c.perm c.draws

/-- `ProcessLeaderBeElected` for the PG; `none` if it does not change. -/
def electedPg (osds : OsdInfos) (pgSize : Nat) (osdList : List Nat) (pg : PGConfig) : Option PGConfig :=
  if pg.pgState.inState .creating then
    some { pg with
      pgState := if pg.pgState.inState .undersize || pg.pgState.inState .down then pg.pgState.unset .creating
        else pg.pgState.set .active
      version := pg.version + 1 }
  else if pg.pgState.inState .remapped then
    if compareArry pg.osdList osdList then
      -- getPgOsdOutNum
      if osdList.any fun id => (osds id).any fun o => !o.isIn then some { pg with version := pg.version + 1 }
      else
        let state := pg.pgState.unset .remapped
        some { pg with
          newOsdList := []
          pgState := if !state.inState .undersize && !state.inState .down then state.set .active else state
          newCoreIndex := noCore
          version := pg.version + 1 }
    else if compareArry pg.newOsdList osdList then
      let state := pg.pgState.unset .remapped
      some { pg with
        osdList := pg.newOsdList
        newOsdList := []
        coreIndex := pg.newCoreIndex
        newCoreIndex := noCore
        pgState := state.set ((checkPgState osds pg.newOsdList pgSize).getD .active)
        version := pg.version + 1 }
    else none
  else none

/-- `ProcessPgMemberChangeFinish` for the PG. -/
def changedPg (osds : OsdInfos) (pgSize : Nat) (result : Int) (osdList : List Nat) (pg : PGConfig) : Option PGConfig :=
  if result ≠ 0 then none
  else if pg.pgState.inState .remapped || !compareArry pg.osdList osdList || !pg.newOsdList.isEmpty then
    some { pg with
      pgState := PgState.set {} ((checkPgState osds osdList pgSize).getD .active)
      version := pg.version + 1
      osdList := osdList
      newOsdList := []
      coreIndex := if pg.newCoreIndex ≠ noCore then pg.newCoreIndex else pg.coreIndex
      newCoreIndex := noCore }
  else none

end Fastblock.L5
