import Fastblock.L5Monitor.Redistribute

/-!
# PGs move to the OSDs that came in

`reblancePool` (monitor/osd/calculator.go:578-689) with `getDomainPg`,
`addPgOsd` and `transferPG` (370-576), `top3MinValue` and `getMaxValue`
(997-1030). The maps are those of the source: `domainPgNum` with the keys
in the order of their insertion, the others as functions with the zero
value for a missing key.
-/
namespace Fastblock.L5

/-- The maps of `reblancePool`, the PGs, and the number of iterations over
`domainPgNum` so far. -/
structure Rebalance where
  domainPgNum : PgNums
  pgOnDomain : Bytes → List Nat
  pgNumPerOsd : Nat → Int
  pgDomains : Nat → List Bytes
  pgs : List PGConfig
  iterations : Nat

/-- `osdDomainMap[osd]` -/
def osdDomain (tree : List DomainNode) (osd : Nat) : Option Bytes :=
  (tree.reverse.find? fun d => d.Has osd).map (·.domainName)

/-! ## getDomainPg -/

/-- One member of a PG is counted. An OSD that is not in the tree has the
domain with the empty name. -/
def Rebalance.count (tree : List DomainNode) (pgId : Nat) (s : Rebalance) (osd : Nat) : Rebalance :=
  let domain := (osdDomain tree osd).getD []
  { s with
    domainPgNum := s.domainPgNum.update domain fun n => int32 (n + 1)
    pgOnDomain := fun d => if d = domain then s.pgOnDomain d ++ [pgId] else s.pgOnDomain d
    pgDomains := fun i => if i = pgId then s.pgDomains i ++ [domain] else s.pgDomains i
    pgNumPerOsd := fun o => if o = osd then int32 (s.pgNumPerOsd o + 1) else s.pgNumPerOsd o }

/-- `getDomainPg` -/
def getDomainPg (tree : List DomainNode) (pgs : List PGConfig) : Rebalance :=
  pgs.zipIdx.foldl (fun s p => p.1.osdList.foldl (fun s osd => s.count tree p.2 osd) s)
    ⟨tree.map fun d => (d.domainName, 0), fun _ => [], fun _ => 0, fun _ => [], pgs, 0⟩

/-! ## The smallest and the greatest numbers -/

/-- The three smallest values so far and their keys. -/
structure Top3Keys where
  minVal : Int := 2147483647
  minKey : Bytes := []
  secondMinVal : Int := 2147483647
  secondMinKey : Bytes := []
  thirdMinVal : Int := 2147483647
  thirdMinKey : Bytes := []

def Top3Keys.step (t : Top3Keys) (p : Bytes × Int) : Top3Keys :=
  if p.2 < t.minVal then ⟨p.2, p.1, t.minVal, t.minKey, t.secondMinVal, t.secondMinKey⟩
  else if p.2 ≥ t.minVal ∧ p.2 < t.secondMinVal then
    { t with secondMinVal := p.2, secondMinKey := p.1, thirdMinVal := t.secondMinVal, thirdMinKey := t.secondMinKey }
  else if p.2 ≥ t.secondMinVal ∧ p.2 < t.thirdMinVal then { t with thirdMinVal := p.2, thirdMinKey := p.1 }
  else t

/-- `top3MinValue`: the candidates, the best first. -/
def top3MinValue (m : PgNums) : List Bytes :=
  let t := m.foldl Top3Keys.step {}
  [t.minKey, t.secondMinKey, t.thirdMinKey]

/-- `getMaxValue` -/
def getMaxValue (m : PgNums) : Bytes :=
  (m.foldl (fun (max : Int × Bytes) p => if p.2 > max.1 then (p.2, p.1) else max) (0, [])).2

/-- `getMinPgOsd`; 0 if there is no OSD. -/
def getMinPgOsd (tree : List DomainNode) (domain : Bytes) (pgNumPerOsd : Nat → Int) : Nat :=
  (((tree.filter (·.domainName = domain)).flatMap (·.childNode)).foldl (fun (min : Int × Nat) o =>
    if pgNumPerOsd o.osdid < min.1 then (pgNumPerOsd o.osdid, o.osdid) else min) (2147483647, 0)).2

/-! ## addPgOsd -/

/-- The first candidate that the PG does not have. -/
def Rebalance.newDomain (s : Rebalance) (pgId : Nat) (candidates : List Bytes) : Option Bytes :=
  candidates.find? fun d => !(s.pgDomains pgId).contains d

/-- A PG gets a member in a domain. -/
def Rebalance.addMember (tree : List DomainNode) (s : Rebalance) (pgId : Nat) (domain : Bytes) : Rebalance × Nat :=
  let addOsd := getMinPgOsd tree domain s.pgNumPerOsd
  ({ s with
    domainPgNum := s.domainPgNum.update domain fun n => int32 (n + 1)
    pgOnDomain := fun d => if d = domain then s.pgOnDomain d ++ [pgId] else s.pgOnDomain d
    pgDomains := fun i => if i = pgId then s.pgDomains i ++ [domain] else s.pgDomains i
    pgNumPerOsd := fun o => if o = addOsd then int32 (s.pgNumPerOsd o + 1) else s.pgNumPerOsd o }, addOsd)

/-- The loop of `addPgOsd`. -/
def Rebalance.addMembers (tree : List DomainNode) (pgId : Nat) (candidates : List Bytes) :
    Nat → Rebalance → List Nat → Rebalance × List Nat
  | 0, s, newOsdList => (s, newOsdList)
  | n + 1, s, newOsdList =>
    match s.newDomain pgId candidates with
    | some domain =>
      let (s, addOsd) := s.addMember tree pgId domain
      addMembers tree pgId candidates n s (newOsdList ++ [addOsd])
    | none => addMembers tree pgId candidates n s newOsdList

/-- `addPgOsd` -/
def addPgOsd (tree : List DomainNode) (cfgPgSize pgSize pgId : Nat) (candidates : List Bytes) (s : Rebalance) :
    Rebalance :=
  match s.pgs[pgId]? with
  | none => s
  | some pg =>
    let (s, newOsdList) := s.addMembers tree pgId candidates (cfgPgSize - pg.osdList.length) pg.osdList
    if newOsdList.length = pg.osdList.length then s
    else
      let state := pg.pgState.set .remapped
      { s with pgs := s.pgs.set pgId { pg with
          version := pg.version + 1
          pgState := if newOsdList.length = pgSize then { state with undersize := false } else state
          newOsdList := newOsdList
          newCoreIndex := pg.coreIndex } }

/-! ## transferPG -/

/-- `transferable` -/
def transferable (pg : PGConfig) : Bool :=
  !(pg.pgState.remapped || pg.pgState.down || pg.pgState.creating || pg.pgState.undersize)

/-- `removeArrInt`: the last element takes the place of one that is
removed. -/
def removeArrInt (val : Nat) : Nat → List Nat → List Nat
  | 0, _ => []
  | _ + 1, [] => []
  | n + 1, x :: arr =>
    if x = val then removeArrInt val n (arr.getLast?.toList ++ arr.dropLast) else x :: removeArrInt val n arr

/-- `transferPG`; `none` if no candidate is new. -/
def transferPG (tree : List DomainNode) (pgId : Nat) (maxPgDomain : Bytes) (candidates : List Bytes) (s : Rebalance) :
    Option Rebalance := do
  let pg ← s.pgs[pgId]?
  let domain ← s.newDomain pgId candidates
  let inMax := fun osd => osdDomain tree osd = some maxPgDomain
  let srcOsd := ((pg.osdList.filter inMax).getLast?).getD 0
  let dstOsd := getMinPgOsd tree domain s.pgNumPerOsd
  let nums := fun o => if o = srcOsd then int32 (s.pgNumPerOsd o - 1) else s.pgNumPerOsd o
  return { s with
    domainPgNum := (s.domainPgNum.update maxPgDomain fun n => int32 (n - 1)).update domain fun n => int32 (n + 1)
    pgOnDomain := fun d =>
      let onMax := removeArrInt pgId (s.pgOnDomain maxPgDomain).length (s.pgOnDomain maxPgDomain)
      let on := if d = maxPgDomain then onMax else s.pgOnDomain d
      if d = domain then on ++ [pgId] else on
    pgDomains := fun i => if i = pgId then (s.pgDomains i).replace maxPgDomain domain else s.pgDomains i
    pgNumPerOsd := fun o => if o = dstOsd then int32 (nums o + 1) else nums o
    pgs := s.pgs.set pgId { pg with
      version := pg.version + 1
      pgState := pg.pgState.set .remapped
      newOsdList := pg.osdList.filter (fun osd => !inMax osd) ++ [dstOsd]
      newCoreIndex := pg.coreIndex } }

/-! ## reblancePool -/

section ReblancePool

variable (tree : List DomainNode) (ord : MapOrder (Bytes × Int))

/-- The body of the loop over the PGs with too few members. -/
def fillPg (cfgPgSize pgSize : Nat) (s : Rebalance) (pgId : Nat) : Rebalance :=
  match s.pgs[pgId]? with
  | none => s
  | some pg =>
    if pg.pgState.remapped || pg.pgState.down then s
    else if pg.osdList.length = cfgPgSize then s
    else
      let candidates := top3MinValue (ord.order s.iterations s.domainPgNum)
      addPgOsd tree cfgPgSize pgSize pgId candidates { s with iterations := s.iterations + 1 }

/-- The inner loop of the transfers: the first PG of the domain that can be
moved. -/
def transferFirstPG (maxPgDomain : Bytes) (candidates : List Bytes) (s : Rebalance) : List Nat → Option Rebalance
  | [] => none
  | pgId :: rest =>
    if (s.pgDomains pgId).contains maxPgDomain && (s.pgs[pgId]?).any transferable then
      match transferPG tree pgId maxPgDomain candidates s with
      | some s => some s
      | none => transferFirstPG maxPgDomain candidates s rest
    else transferFirstPG maxPgDomain candidates s rest

/-- One turn of the transfers; `none` ends the loop. -/
def transferTurn (pgPerDomain : Int) (s : Rebalance) : Option Rebalance :=
  let maxPgDomain := getMaxValue (ord.order s.iterations s.domainPgNum)
  let candidates := top3MinValue (ord.order (s.iterations + 1) s.domainPgNum)
  let s := { s with iterations := s.iterations + 2 }
  if s.domainPgNum.get (candidates.headD []) < pgPerDomain ∨
      s.domainPgNum.get maxPgDomain > int32 (pgPerDomain + 1) then
    transferFirstPG tree maxPgDomain candidates s (s.pgOnDomain maxPgDomain)
  else none

def transferLoop (pgPerDomain : Int) : Nat → Rebalance → Rebalance
  | 0, s => s
  | n + 1, s =>
    match transferTurn tree ord pgPerDomain s with
    | some s => transferLoop pgPerDomain n s
    | none => s

end ReblancePool

/-- `reblancePool`: the PGs afterwards. `pgOrder` is the order of the
iteration over the PGs. -/
def reblancePool (t : Topology) (pool : PoolConfig) (pgOrder : List Nat) (ord : MapOrder (Bytes × Int)) :
    Except Fault (List PGConfig) :=
  let osdTree := getOSDTree t true true
  let cfgPgSize := getEffectivePGSize pool.pgSize (getFailureDomainNum osdTree pool.failureDomain)
  match flattenTree osdTree pool.failureDomain pool.root with
  | none => .error .panic
  | some tree =>
    let s := getDomainPg tree pool.pgs
    if s.domainPgNum.isEmpty then .ok pool.pgs
    else
      let pgPerDomain := int32 ((pool.pgs.length * cfgPgSize / s.domainPgNum.length : Nat))
      let s := pgOrder.foldl (fillPg tree ord cfgPgSize pool.pgSize) s
      .ok (transferLoop tree ord pgPerDomain pool.pgs.length s).pgs

end Fastblock.L5
