import Fastblock.L5Monitor.Topology

/-!
# A PG gets OSDs in place of those that are out

`redistributionPg` (monitor/osd/calculator.go:908-958) with
`calculatePgOsds` (1032-1102), `getPgNumPerOsd` (960-970) and
`getMinValue` (982-995). An iteration over a map has any order; a
`MapOrder` gives it for each iteration.
-/
namespace Fastblock.L5

open Fastblock.Core (decimal)

/-- `PoolConfig`; `PoolPgMap.PgMap` has the PGs 0 to `PGCount - 1` from the
creation of the pool on. -/
structure PoolConfig where
  pgSize : Nat
  failureDomain : Level
  root : Bytes
  pgs : List PGConfig
  deriving DecidableEq

/-- What keeps a function from its result. -/
inductive Fault
  | panic
  | endless
  deriving DecidableEq, Repr

theorem bind_ok {ε α β : Type} {x : Except ε α} {f : α → Except ε β} {r : β} (h : x >>= f = .ok r) :
    ∃ a, x = .ok a ∧ f a = .ok r := by
  cases x with
  | error e => cases h
  | ok a => exact ⟨a, rfl, h⟩

/-- The orders of the iterations over a map. -/
structure MapOrder (α : Type*) where
  order : Nat → List α → List α
  perm : ∀ n l, (order n l).Perm l

/-- A map from domains, or OSDs, to numbers of PGs. -/
abbrev PgNums := List (Bytes × Int)

/-- `m[key]` -/
def PgNums.get (m : PgNums) (key : Bytes) : Int := (m.lookup key).getD 0

/-- `m[key] = f(m[key])` -/
def PgNums.update (m : PgNums) (key : Bytes) (f : Int → Int) : PgNums :=
  if (m.lookup key).isSome then m.map fun p => if p.1 = key then (p.1, f p.2) else p else m ++ [(key, f 0)]

/-- `delete(m, key)` -/
def PgNums.delete (m : PgNums) (key : Bytes) : PgNums := m.filter (·.1 ≠ key)

/-- `getPgNumPerOsd` -/
def getPgNumPerOsd (pools : List PoolConfig) (osd : Nat) : Int :=
  int32 (((pools.flatMap (·.pgs)).flatMap (·.osdList)).count osd : Nat)

/-- `getMinValue` with the orders of its two iterations. The smallest
value so far is not updated. -/
def getMinValue (first second : PgNums) : Bytes :=
  match first with
  | [] => []
  | (key, minVal) :: _ => second.foldl (fun minKey p => if p.2 < minVal then p.1 else minKey) key

/-- The variables of `calculatePgOsds`, and the number of iterations over
`domainPgNum` so far. -/
structure Calc where
  domainPgNum : PgNums
  pgNumPerOsd : Nat → Int
  addOsdList : List Nat := []
  iterations : Nat := 0

namespace Calc

variable (tree : List DomainNode) (oldOsdList : List Nat) (ord : MapOrder (Bytes × Int)) (c : Calc)

/-- `minPgDomain` -/
def minPgDomain : Bytes :=
  getMinValue (ord.order c.iterations c.domainPgNum) (ord.order (c.iterations + 1) c.domainPgNum)

/-- The body of the loop for failure domain osd. -/
def addOsd : Calc :=
  let minPgDomain := c.minPgDomain ord
  let id := Core.ofDecimal minPgDomain
  { domainPgNum := c.domainPgNum.update minPgDomain fun n => int32 (n + 1)
    pgNumPerOsd := fun o => if o = id then int32 (c.pgNumPerOsd o + 1) else c.pgNumPerOsd o
    addOsdList := c.addOsdList ++ [id]
    iterations := c.iterations + 2 }

/-- The body of the loop for the other failure domains.
`pgNumPerDomainOsd` is a nil map: an assignment panics, and without one
its length is 0. Each turn of `goto getMin` takes a domain from the map;
once the map is empty a turn changes nothing any more, so a body that
needs more turns than there are domains has no end. -/
def addDomain : Nat → Calc → Except Fault Calc
  | 0, _ => .error .endless
  | turns + 1, c =>
    let minPgDomain := c.minPgDomain ord
    match tree.find? (·.domainName = minPgDomain) with
    | none => .ok { c with
        domainPgNum := c.domainPgNum.update minPgDomain fun n => int32 (n + 1), iterations := c.iterations + 2 }
    | some d =>
      if d.childNode.all fun o => oldOsdList.contains o.osdid || c.addOsdList.contains o.osdid then
        addDomain turns { c with domainPgNum := c.domainPgNum.delete minPgDomain, iterations := c.iterations + 2 }
      else .error .panic

/-- The loop of `calculatePgOsds`. -/
def loop (failureDomain : Level) : Nat → Calc → Except Fault Calc
  | 0, c => .ok c
  | n + 1, c =>
    if failureDomain = .osd then loop failureDomain n (c.addOsd ord)
    else do loop failureDomain n (← addDomain tree oldOsdList ord (c.domainPgNum.length + 1) c)

end Calc

/-- The entry of `domainPgNum` for a domain. -/
def domainPgNum (pgNumPerOsd : Nat → Int) (oldOsdList : List Nat) (d : DomainNode) : Option (Bytes × Int) :=
  if d.childNode.length = 1 ∧ d.childNode.all (oldOsdList.contains ·.osdid) then none
  else
    let others := d.childNode.filter fun o => !oldOsdList.contains o.osdid
    some (d.domainName, int32 (others.map fun o => pgNumPerOsd o.osdid).sum)

/-- `calculatePgOsds`; the tree is not nil. -/
def calculatePgOsds (failureDomain : Level) (tree : List DomainNode) (pools : List PoolConfig) (addNum : Nat)
    (oldOsdList : List Nat) (ord : MapOrder (Bytes × Int)) : Except Fault (List Nat) :=
  let nums := tree.filterMap (domainPgNum (getPgNumPerOsd pools) oldOsdList)
  if nums.isEmpty then .ok []
  else (Calc.loop tree oldOsdList ord failureDomain addNum ⟨nums, getPgNumPerOsd pools, [], 0⟩).map (·.addOsdList)

/-- `redistributionPg` for a PG of a pool. -/
def redistributionPg (t : Topology) (pools : List PoolConfig) (pool : PoolConfig) (pg : PGConfig)
    (ord : MapOrder (Bytes × Int)) : Except Fault (Option PGConfig) :=
  let osdTree := getOSDTree t true true
  let newOsdList := pg.osdList.filter t.infos.isIn
  let pgSize := getEffectivePGSize pool.pgSize (getFailureDomainNum osdTree pool.failureDomain)
  if pgSize ≤ newOsdList.length then .ok none
  else
    match flattenTree osdTree pool.failureDomain pool.root with
    | none => .error .panic
    | some tree => do
      let addOsdList ← calculatePgOsds pool.failureDomain tree pools (pgSize - newOsdList.length) pg.osdList ord
      if addOsdList.isEmpty then return none
      return some { pg with
        version := pg.version + 1
        pgState := pg.pgState.set .remapped
        newOsdList := newOsdList ++ addOsdList
        newCoreIndex := pg.coreIndex }

end Fastblock.L5
