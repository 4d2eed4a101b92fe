import Fastblock.L5Monitor.Pg

/-!
# The first placement of a pool

`SimpleInitial` (monitor/osd/calculator.go:1254-1466) with `transfer_one`,
`getRandIndex`, `contains`, `find`, `top3_min_index` and `max_index`
(1479-1611), and the lists of cores (1217-1243).
-/
namespace Fastblock.L5

/-! ## Slices -/

section Slices

variable {α : Type*}

/-- `l[i]`, which panics outside the slice. -/
def goIndex (l : List α) (i : Int) : Option α := if 0 ≤ i then l[i.toNat]? else none

/-- `l[i] = f(l[i])` -/
def goUpdate (l : List α) (i : Int) (f : α → α) : Option (List α) := (goIndex l i).map fun x => l.set i.toNat (f x)

/-- `contains` from a position to the end. -/
def goContains (l : List Int) (val : Int) (start : Nat) : Bool := (l.drop start).contains val

/-- `find` from a position to the end; -1 if there is none. -/
def goFind (l : List Int) (val : Int) (start : Nat) : Int :=
  match (l.drop start).findIdx? (· = val) with
  | some i => (start + i : Nat)
  | none => -1

end Slices

/-! ## Step 1: hosts at random -/

/-- `getRandIndex`; `perm` is what `rand.Perm(candidate)` gives. -/
def getRandIndex (candidate need : Nat) (perm : List Nat) : List Nat :=
  let div := need / candidate
  let remain := need - div * candidate
  (List.range div).flatMap (fun _ => List.range candidate) ++ perm.take remain

/-- The `for` loop that draws a host until it is a new one; `none` if the
draws do not end it. -/
def pickHost (row : List Int) (draws : List Nat) : Option Int :=
  (draws.find? fun d : Nat => !row.contains (d : Int)).map Int.ofNat

/-- One row of `pg_host_array`: the leader's host and `n` more, with the
draws for each place. -/
def chooseRow (leader : Int) (draws : Nat → List Nat) : Nat → Option (List Int)
  | 0 => some [leader]
  | n + 1 => do
    let row ← chooseRow leader draws n
    let host ← pickHost row (draws (n + 1))
    return row ++ [host]

/-- `pg_host_array` at the end of step 1. -/
def chooseRows (hostCount pgCount pgSize : Nat) (perm : List Nat) (draws : Nat → Nat → List Nat) :
    Option (List (List Int)) :=
  (getRandIndex hostCount pgCount perm).zipIdx.mapM fun p => chooseRow p.1 (draws p.2) (pgSize - 1)

/-- `pg_num_on_host` -/
def pgNumOnHost (hostCount : Nat) (rows : List (List Int)) : Option (List Int) :=
  rows.flatten.foldlM (fun nums h => goUpdate nums h (· + 1)) (List.replicate hostCount 0)

/-- `pg_on_host_map[host]` -/
def pgOnHost (rows : List (List Int)) (host : Int) : List Nat :=
  rows.zipIdx.flatMap fun p => (p.1.filter (· = host)).map fun _ => p.2

/-! ## Step 2: hosts balanced -/

/-- The three smallest numbers seen so far, with their indices. -/
structure Top3 where
  minNum : Int := 2147483647
  minIndex : Int := -1
  secondMinNum : Int := 2147483647
  secondMinIndex : Int := -1
  thirdMinNum : Int := 2147483647
  thirdMinIndex : Int := -1

def Top3.step (t : Top3) (num : Int) (i : Nat) : Top3 :=
  if num < t.minNum then ⟨num, i, t.minNum, t.minIndex, t.secondMinNum, t.secondMinIndex⟩
  else if num ≥ t.minNum ∧ num < t.secondMinNum then
    { t with secondMinNum := num, secondMinIndex := i, thirdMinNum := t.secondMinNum, thirdMinIndex :=
      t.secondMinIndex }
  else if num ≥ t.secondMinNum ∧ num < t.thirdMinNum then { t with thirdMinNum := num, thirdMinIndex := i }
  else t

/-- `top3_min_index` -/
def top3MinIndex (array : List Int) : Top3 := array.zipIdx.foldl (fun t p => t.step p.1 p.2) {}

/-- `max_index` -/
def maxIndex (array : List Int) : Int :=
  (array.zipIdx.foldl (fun (m : Int × Int) p => if p.1 > m.1 then (p.1, (p.2 : Int)) else m) (-2147483648, -1)).2

/-- The hosts of the PGs and the number of PGs on each host. -/
structure Balance where
  rows : List (List Int)
  nums : List Int

/-- One PG moves from a host to another. -/
def moveHost (pg nums : List Int) (idx maxHost host : Int) : Option (List Int × List Int) := do
  let pg ← goUpdate pg idx fun _ => host
  let nums ← goUpdate nums maxHost (· - 1)
  let nums ← goUpdate nums host (· + 1)
  return (pg, nums)

/-- `transfer_one`: the PG and the numbers after a transfer, or that there
is none. -/
def transferOne (pg : List Int) (maxHost : Int) (t : Top3) (nums : List Int) : Option (Option (List Int × List Int)) :=
  let idx := goFind pg maxHost 1
  if !goContains pg t.minIndex 0 then (moveHost pg nums idx maxHost t.minIndex).map some
  else if !goContains pg t.secondMinIndex 0 then (moveHost pg nums idx maxHost t.secondMinIndex).map some
  else if !goContains pg t.thirdMinIndex 0 then (moveHost pg nums idx maxHost t.thirdMinIndex).map some
  else some none

/-- The inner loop of step 2 over the PGs of the host with most PGs. -/
def transferFirst (b : Balance) (maxHost : Int) (t : Top3) : List Nat → Option (Option Balance)
  | [] => some none
  | pgId :: rest => do
    let pg ← b.rows[pgId]?
    if goContains pg maxHost 1 then
      match ← transferOne pg maxHost t b.nums with
      | some (pg, nums) => return some ⟨b.rows.set pgId pg, nums⟩
      | none => transferFirst b maxHost t rest
    else transferFirst b maxHost t rest

/-- One round of step 2; `some none` if it ends the loop. -/
def balanceRound (pgPerHost : Int) (onHost : Int → List Nat) (b : Balance) : Option (Option Balance) := do
  let maxHost := maxIndex b.nums
  let t := top3MinIndex b.nums
  let minNum ← goIndex b.nums t.minIndex
  let maxNum ← goIndex b.nums maxHost
  if minNum < pgPerHost ∨ maxNum > pgPerHost + 1 then transferFirst b maxHost t (onHost maxHost) else return none

/-- The loop of step 2. -/
def balance (pgPerHost : Int) (onHost : Int → List Nat) : Nat → Balance → Option Balance
  | 0, b => some b
  | loops + 1, b => do
    match ← balanceRound pgPerHost onHost b with
    | none => return b
    | some b => balance pgPerHost onHost loops b

/-! ## Steps 3 and 4: OSDs and cores -/

/-- `osdCore` -/
structure OsdCore where
  osdid : Nat
  coreid : Nat
  pgnum : Nat
  deriving DecidableEq, Repr

/-- The list of step 3 for one failure domain. -/
def osdCores (coreNum : Nat) (d : DomainNode) : List OsdCore :=
  (List.range coreNum).flatMap fun c => (d.childNode.filter (·.coreNum = coreNum)).map fun t => ⟨t.osdid, c, 0⟩

/-- `sortOsdList`: the element moves behind the ones that follow it and do
not have more PGs. -/
def sortOsdList (osd : OsdCore) (behind : List OsdCore) : List OsdCore :=
  behind.takeWhile (fun o => !(osd.pgnum < o.pgnum)) ++ osd :: behind.dropWhile fun o => !(osd.pgnum < o.pgnum)

/-- The first core of the list with property `p` gets a PG; a list without
one panics. -/
def takeCore (p : OsdCore → Bool) : List OsdCore → Option (OsdCore × List OsdCore)
  | [] => none
  | osd :: rest =>
    if p osd then some (osd, sortOsdList { osd with pgnum := osd.pgnum + 1 } rest)
    else (takeCore p rest).map fun r => (r.1, osd :: r.2)

/-- The place in the PG, and the core, of the least used OSD at the front of
the hosts' lists. -/
def leastUsed (hostMap : List (List OsdCore)) (row : List Int) : Option (Nat × Nat) := do
  let fronts ← row.mapM fun h => do (← goIndex hostMap h).head?
  let least := fronts.zipIdx.foldl (fun (m : Nat × Nat × Nat) p =>
    if p.1.pgnum < m.1 then (p.1.pgnum, p.2, p.1.coreid) else m) (2 ^ 63 - 1, 0, 0)
  return least.2

/-- The cores that get a PG, from place `j` on: at place `index` the one at
the front, else the first one with the same core. -/
def placeOsds (index coreId : Nat) : List Int → Nat → List (List OsdCore) → Option (List OsdCore × List (List OsdCore))
  | [], _, hostMap => some ([], hostMap)
  | host :: row, j, hostMap => do
    let lst ← goIndex hostMap host
    let (osd, lst) ← takeCore (fun o => j = index || o.coreid = coreId) lst
    let hostMap ← goUpdate hostMap host fun _ => lst
    let (osds, hostMap) ← placeOsds index coreId row (j + 1) hostMap
    return (osd :: osds, hostMap)

/-- What a new PG takes over from an old one of its id, or its first
state. -/
def withVersion (osds : OsdInfos) (poolPgSize : Nat) (old : Option PGConfig) (pg : PGConfig) : PGConfig :=
  match old with
  | some old => { pg with version := if compareArry old.osdList pg.osdList then old.version else old.version + 1 }
  | none =>
    let state := pg.pgState.set .creating
    { pg with
      version := 1
      pgState := match checkPgState osds pg.osdList poolPgSize with
        | some bit => state.set bit
        | none => state }

/-- Step 4 -/
def placePgs (osds : OsdInfos) (poolPgSize : Nat) (old : Nat → Option PGConfig) :
    List (List Int) → Nat → List (List OsdCore) → Option (List PGConfig)
  | [], _, _ => some []
  | row :: rows, i, hostMap => do
    let (index, coreId) ← leastUsed hostMap row
    let (members, hostMap) ← placeOsds index coreId row 0 hostMap
    let pg := withVersion osds poolPgSize (old i) {
      coreIndex := (members[index]?.map (·.coreid)).getD 0, newCoreIndex := noCore, osdList := members.map (·.osdid) }
    let pgs ← placePgs osds poolPgSize old rows (i + 1) hostMap
    return pg :: pgs

/-- The arguments of `SimpleInitial`. -/
structure OptimizeCfg where
  osdTree : List DomainNode
  pgCount : Nat
  pgSize : Nat
  previousPGList : Nat → Option PGConfig

inductive InitialResult
  | invalidCfg
  | noEnoughHosts
  /-- the draws did not end the selection of a host -/
  | unfinished
  | panic
  | done (pgs : List PGConfig)
  deriving DecidableEq

/-- `SimpleInitial` with the results of `rand.Perm` and `rand.Intn`. -/
def simpleInitial (cfg : OptimizeCfg) (poolPgSize coreNum : Nat) (osds : OsdInfos) (perm : List Nat)
    (draws : Nat → Nat → List Nat) : InitialResult :=
  let hostCount := cfg.osdTree.length
  if hostCount = 0 ∨ (cfg.osdTree.all (·.childNode.isEmpty)) ∨ hostCount * 2 < cfg.pgSize then .invalidCfg
  else if cfg.pgSize > hostCount then .noEnoughHosts
  else if cfg.pgSize = 0 ∧ cfg.pgCount ≠ 0 then .panic
  else
    match chooseRows hostCount cfg.pgCount cfg.pgSize perm draws with
    | none => .unfinished
    | some rows =>
      let placed : Option (List PGConfig) := do
        let nums ← pgNumOnHost hostCount rows
        let b ← balance ((cfg.pgCount * cfg.pgSize / hostCount : Nat)) (pgOnHost rows) cfg.pgCount ⟨rows, nums⟩
        placePgs osds poolPgSize cfg.previousPGList b.rows 0 (cfg.osdTree.map (osdCores coreNum))
      match placed with
      | none => .panic
      | some pgs => .done pgs

end Fastblock.L5
