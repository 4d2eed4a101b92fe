import Mathlib.Data.List.AList
import Fastblock.Core.Lts
import Fastblock.L5Monitor.Remap

/-!
# Pools across restarts

`AllPools`, the pools in etcd and `lastSeenPoolId` (monitor/osd/pool.go,
monitor/osd/calculator.go:691-905), with the handlers of the monitor in
any interleaving. A handler holds the lock of `AllPools` while it waits
for the lock of a pool: these are the `waiting` ones. Under the pool's
lock it works on the pool (`handle`); a creation and a deletion keep the
lock while they talk to etcd, and a handler that changed PGs (`working`)
goes to `AllPools.pools` once more, without its lock, before it releases
the pool (`leave`). After that a changed pool is written:
`ProcessOsdDown`, `CheckPgs` and `Reblance` marshal it under the lock, the
other two later (`unsaved`), and the writes reach etcd in any order or not
at all. A failed creation or deletion may have reached etcd. Pools are
objects, so one that is no longer in the table is still there for the
handlers that have it.

The topology, the orders of iterations and what a handler reads of other
pools (without their locks) are part of the step. Pool ids in messages are
`int32` values. A panic ends the process, which is a restart.
-/
namespace Fastblock.L5

open Fastblock.Core

/-- A value of an `int64`. -/
def int64 (n : Int) : Int := n.bmod (2 ^ 64)

/-- An object of type `PoolConfig` with its id, its name and
`PoolPgMap.Version`. -/
structure PoolObject where
  poolid : Int
  name : Bytes
  version : Int
  config : PoolConfig
  deriving DecidableEq

/-- `PGInfo`; the PGs of a pool stand in the order of their ids. -/
structure PGInfo where
  version : Int
  state : PgState
  coreindex : Nat
  osdid : List Int
  newcoreindex : Nat
  newosdid : List Int
  deriving DecidableEq

def PGConfig.info (pg : PGConfig) : PGInfo where
  version := pg.version
  state := pg.pgState
  coreindex := pg.coreIndex
  osdid := pg.osdList.map fun id => int32 id
  newcoreindex := pg.newCoreIndex
  newosdid := pg.newOsdList.map fun id => int32 id

/-- The PG map that is sent for a pool. -/
def PoolObject.pginfos (pool : PoolObject) : List PGInfo := pool.config.pgs.map PGConfig.info

/-! ## Handlers -/

/-- What a handler does with a pool that it has found. -/
inductive Handler
  | job (job : Job)
  | reblance
  | leaderBeElected (pgId : Nat) (osdList : List Nat)
  | pgMemberChangeFinish (result : Int) (pgId : Nat) (osdList : List Nat)
  /-- with the version of the client, or for a request without pools -/
  | getPgMap (clientVersion : Option Int)
  | deletePool
  deriving DecidableEq

/-- What a handler sees apart from its pool. -/
structure World where
  topology : Topology
  pools : List PoolConfig
  pgs : List Nat
  orders : Nat → MapOrder (Bytes × Int)

/-- A PG has a new version. -/
def raised (pgs pgs' : List PGConfig) : Bool := pgs'.map (·.version) ≠ pgs.map (·.version)

/-- `isPgStateChange` of `CheckPgs`, for a PG that `redistributionPg` did
not change. -/
def stateChange (osds : OsdInfos) (pgSize osdid : Nat) (stateSwitch : StateSwitch) (pg : PGConfig) : Bool :=
  stateSwitch = .downToUp &&
    (pg.osdList.contains osdid || (pg.pgState.inState .remapped && pg.newOsdList.contains osdid)) &&
    match checkPgState osds pg.osdList pgSize with
    | none => true
    | some state => !pg.pgState.inState state

/-- The PGs that a handler leaves in the pool, and whether it raises the
version of the map. `ProcessOsdDown`, `redistributionPg`, `addPgOsd` and
`transferPG` raise the version of a PG where `isChange` or `isRemap` is
set. -/
def Handler.work (w : World) (pool : PoolConfig) : Handler → Except Fault (List PGConfig × Bool)
  | .job (.osdDown osdid) =>
    let pgs := pool.pgs.map (downPg w.topology.infos pool.pgSize osdid)
    .ok (pgs, raised pool.pgs pgs)
  | .job (.checkPgs osdid stateSwitch) => do
    let checked ← checkPool w.topology w.pools pool osdid stateSwitch w.orders pool.pgs 0
    let pgs := checked.map (·.1)
    return (pgs, raised pool.pgs pgs ||
      pool.pgs.any (stateChange w.topology.infos pool.pgSize osdid stateSwitch))
  | .reblance =>
    if (getOSDTree w.topology true true).osds.isEmpty then .ok (pool.pgs, false)
    else do
      let pgs ← reblancePool w.topology pool w.pgs (w.orders 0)
      return (pgs, raised pool.pgs pgs)
  | .leaderBeElected pgId osdList =>
    match pool.pgs[pgId]?.bind (electedPg w.topology.infos pool.pgSize osdList) with
    | some pg => .ok (pool.pgs.set pgId pg, true)
    | none => .ok (pool.pgs, false)
  | .pgMemberChangeFinish result pgId osdList =>
    match pool.pgs[pgId]?.bind (changedPg w.topology.infos pool.pgSize result osdList) with
    | some pg => .ok (pool.pgs.set pgId pg, true)
    | none => .ok (pool.pgs, false)
  | .getPgMap _ | .deletePool => .ok (pool.pgs, false)

/-- The handler changes PGs. -/
def Handler.changes : Handler → Bool
  | .getPgMap _ | .deletePool => false
  | _ => true

/-- The handler puts its pool into `AllPools.pools` again, and marshals it
without the lock. -/
def Handler.reports : Handler → Bool
  | .leaderBeElected .. | .pgMemberChangeFinish .. => true
  | _ => false

/-- The answer of `ProcessGetPgMapMessage` for a pool. -/
inductive PgMapAnswer
  | pgMapGetOk (version : Int) (pgs : List PGInfo)
  | pgMapSameVersion (version : Int)
  | pgMapclientVersionHigher (version : Int)
  deriving DecidableEq

/-- `ProcessGetPgMapMessage`; nothing is said about a pool without PGs in an
answer with all pools. -/
def PoolObject.getPgMap (pool : PoolObject) : Option Int → Option PgMapAnswer
  | none => if pool.config.pgs.isEmpty then none else some (.pgMapGetOk pool.version pool.pginfos)
  | some clientVersion =>
    if clientVersion > pool.version then some (.pgMapclientVersionHigher pool.version)
    else if clientVersion = pool.version then some (.pgMapSameVersion pool.version)
    else some (.pgMapGetOk pool.version pool.pginfos)

/-! ## The table -/

/-- A handler that has found a pool. -/
structure Waiter where
  handler : Handler
  poolId : Int
  object : Nat
  deriving DecidableEq

/-- A creation that has put its pool into the table; `written` once it has
released the pool. -/
structure Creation where
  poolId : Int
  object : Nat
  pgCount : Nat
  written : Bool := false
  deriving DecidableEq

/-- A version of a PG map that a client got. -/
structure Received where
  poolId : Int
  version : Int
  pgs : List PGInfo
  deriving DecidableEq

structure PoolTable where
  /-- every object there has been; a pointer is a position -/
  objects : List PoolObject := []
  /-- `AllPools.pools` -/
  pools : AList (fun _ : Int => Nat) := ∅
  /-- what etcd holds -/
  stored : AList (fun _ : Int => PoolObject) := ∅
  lastSeenPoolId : Int := 0
  waiting : List Waiter := []
  /-- handlers that have changed PGs and hold the lock of their pool -/
  working : List Waiter := []
  creating : List Creation := []
  /-- deletions that hold the lock of their pool -/
  deleting : List (Int × Nat) := []
  /-- pools that a handler has yet to marshal -/
  unsaved : List (Int × Nat) := []
  writes : List (Int × PoolObject) := []
  /-- the results of successful creations so far -/
  returned : List Int := []
  /-- what clients got so far -/
  received : List Received := []

inductive PoolEvent
  | createBegin (name : Bytes) (size pgCount : Nat) (failureDomain : Level) (root : Bytes)
  /-- the rest of a creation up to the release of the pool, with the
  result of `Put` and whether it reached etcd -/
  | createEnd (i : Nat) (topology : Topology) (coreNum : Nat) (choices : Choices) (put reached : Bool)
  | createReturn (i : Nat)
  | lookup (handler : Handler) (poolId : Int)
  | deleteLookup (name : Bytes)
  | handle (i : Nat) (w : World)
  /-- with what becomes of another pool that is under the id by then: its
  version and its PGs -/
  | leave (i : Nat) (torn : Int × List PGConfig)
  /-- with the result of `Delete` and whether it reached etcd -/
  | deleteEnd (i : Nat) (delete reached : Bool)
  | marshal (i : Nat)
  | put (i : Nat) (reached : Bool)
  /-- with the ids of the stored images, which `LoadImageConfig` counts as
  pool ids -/
  | restart (images : List Int)

namespace PoolTable

variable (s : PoolTable)

/-- The lock of a pool is held. -/
def locked (object : Nat) : Bool :=
  s.creating.any (fun c => c.object = object && !c.written) || s.deleting.any (·.2 = object) ||
    s.working.any (·.object = object)

/-- `findUsablePoolId` -/
def findUsablePoolId : Int := int32 (s.lastSeenPoolId + 1)

/-- The pool of a name. -/
def named (name : Bytes) : Option PoolObject :=
  s.pools.entries.findSome? fun e => (s.objects[e.2]?).filter (·.name = name)

/-- `ProcessCreatePoolMessage` under the lock of `AllPools`. -/
def createBegin (name : Bytes) (size pgCount : Nat) (failureDomain : Level) (root : Bytes) : Option PoolTable :=
  if !s.waiting.isEmpty then none
  else if (s.named name).isSome then some s
  else
    let pid := s.findUsablePoolId
    some { s with
      objects := s.objects ++ [⟨pid, name, 1, ⟨size, failureDomain, root, []⟩⟩]
      pools := s.pools.insert pid s.objects.length
      creating := s.creating ++ [⟨pid, s.objects.length, pgCount, false⟩] }

/-- `ProcessCreatePoolMessage` up to the release of the pool. -/
def createEnd (i : Nat) (topology : Topology) (coreNum : Nat) (choices : Choices) (put reached : Bool) :
    Option PoolTable := do
  let c ← s.creating[i]?
  let pool ← s.objects[c.object]?
  if c.written then none
  else
    let failed := { s with pools := s.pools.erase c.poolId, creating := s.creating.eraseIdx i }
    match createPgs topology pool.config.pgSize c.pgCount pool.config.failureDomain pool.config.root coreNum choices
        with
    | .panic | .unfinished => none
    | .invalidCfg | .noEnoughHosts => some failed
    | .done pgs =>
      let pool := { pool with config := { pool.config with pgs := pgs } }
      let objects := s.objects.set c.object pool
      let stored := if put || reached then s.stored.insert c.poolId pool else s.stored
      if put then
        some { s with objects := objects, stored := stored, creating := s.creating.set i { c with written := true } }
      else some { failed with objects := objects, stored := stored }

/-- The end of `ProcessCreatePoolMessage`. -/
def createReturn (i : Nat) : Option PoolTable := do
  let c ← s.creating[i]?
  if c.written then
    some { s with
      creating := s.creating.eraseIdx i
      lastSeenPoolId := if s.lastSeenPoolId < c.poolId then c.poolId else s.lastSeenPoolId
      returned := s.returned ++ [c.poolId] }
  else none

/-- A handler looks up a pool; a deletion that waits for its pool holds
`AllPools` for writing. -/
def lookup (handler : Handler) (poolId : Int) : Option PoolTable :=
  if s.waiting.any (·.handler = .deletePool) || handler = .deletePool then none
  else
    match s.pools.lookup poolId with
    | some object => some { s with waiting := s.waiting ++ [⟨handler, poolId, object⟩] }
    | none => some s

/-- `ProcessDeletePoolMessage` looks up its pool. -/
def deleteLookup (name : Bytes) : Option PoolTable := do
  if !s.waiting.isEmpty then none
  else
    let pool ← s.named name
    let object ← s.pools.lookup pool.poolid
    some { s with waiting := [⟨.deletePool, pool.poolid, object⟩] }

/-- A handler that changes PGs. -/
def changePgs (w : World) (wt : Waiter) (pool : PoolObject) : Option PoolTable :=
  match wt.handler.work w pool.config with
  | .error _ => none
  | .ok (pgs, bump) =>
    some { s with
      objects := s.objects.set wt.object { pool with
        version := if bump then int64 (pool.version + 1) else pool.version
        config := { pool.config with pgs := pgs } }
      working := if bump then s.working ++ [wt] else s.working }

/-- What a client got. -/
def receive (poolId : Int) : Option PgMapAnswer → PoolTable
  | some (.pgMapGetOk version pgs) => { s with received := s.received ++ [⟨poolId, version, pgs⟩] }
  | _ => s

/-- A handler gets the lock of its pool. -/
def handle (i : Nat) (w : World) : Option PoolTable := do
  let wt ← s.waiting[i]?
  let pool ← s.objects[wt.object]?
  if s.locked wt.object then none
  else
    let s := { s with waiting := s.waiting.eraseIdx i }
    match wt.handler with
    | .getPgMap clientVersion => some (s.receive wt.poolId (pool.getPgMap clientVersion))
    | .deletePool => some { s with deleting := s.deleting ++ [(wt.poolId, wt.object)] }
    | _ => s.changePgs w wt pool

/-- A handler that has changed PGs releases its pool.
`ProcessLeaderBeElected` and `ProcessPgMemberChangeFinish` put it into the
table. The others go through the table: without an entry they do not
survive, and another pool under the id is changed without its lock. -/
def leave (i : Nat) (torn : Int × List PGConfig) : Option PoolTable := do
  let wt ← s.working[i]?
  if wt.handler.reports then
    some { s with
      working := s.working.eraseIdx i
      pools := s.pools.insert wt.poolId wt.object
      unsaved := s.unsaved ++ [(wt.poolId, wt.object)] }
  else
    let object ← s.pools.lookup wt.poolId
    let pool ← s.objects[object]?
    let pool := if object = wt.object then pool
      else { pool with version := torn.1, config := { pool.config with pgs := torn.2 } }
    some { s with
      working := s.working.eraseIdx i
      objects := s.objects.set object pool
      writes := s.writes ++ [(wt.poolId, pool)] }

/-- The end of `ProcessDeletePoolMessage`. -/
def deleteEnd (i : Nat) (delete reached : Bool) : Option PoolTable := do
  let d ← s.deleting[i]?
  some { s with
    deleting := s.deleting.eraseIdx i
    stored := if delete || reached then s.stored.erase d.1 else s.stored
    pools := if delete then s.pools.erase d.1 else s.pools }

def marshal (i : Nat) : Option PoolTable := do
  let (poolId, object) ← s.unsaved[i]?
  let pool ← s.objects[object]?
  some { s with unsaved := s.unsaved.eraseIdx i, writes := s.writes ++ [(poolId, pool)] }

def put (i : Nat) (reached : Bool) : Option PoolTable := do
  let (poolId, pool) ← s.writes[i]?
  some { s with
    writes := s.writes.eraseIdx i
    stored := if reached then s.stored.insert poolId pool else s.stored }

/-- The body of the loop of `LoadPoolConfig`. -/
def loadPool (e : Sigma fun _ : Int => PoolObject) : PoolTable :=
  { s with
    objects := s.objects ++ [e.2]
    pools := s.pools.insert e.1 s.objects.length
    lastSeenPoolId := if s.lastSeenPoolId < e.1 then e.1 else s.lastSeenPoolId }

/-- The body of the loop of `LoadImageConfig`, as far as pools are
concerned. -/
def loadImage (imageId : Int) : PoolTable :=
  { s with lastSeenPoolId := if s.lastSeenPoolId < imageId then imageId else s.lastSeenPoolId }

/-- What a new process starts with. -/
def fresh : PoolTable := { stored := s.stored, returned := s.returned, received := s.received }

/-- `LoadPoolConfig` and `LoadImageConfig` -/
def restart (images : List Int) : PoolTable := images.foldl loadImage (s.stored.entries.foldl loadPool s.fresh)

def step : PoolEvent → Option PoolTable
  | .createBegin name size pgCount failureDomain root => s.createBegin name size pgCount failureDomain root
  | .createEnd i topology coreNum choices put reached => s.createEnd i topology coreNum choices put reached
  | .createReturn i => s.createReturn i
  | .lookup handler poolId => s.lookup handler poolId
  | .deleteLookup name => s.deleteLookup name
  | .handle i w => s.handle i w
  | .leave i torn => s.leave i torn
  | .deleteEnd i delete reached => s.deleteEnd i delete reached
  | .marshal i => s.marshal i
  | .put i reached => s.put i reached
  | .restart images => some (s.restart images)

end PoolTable

/-- A monitor started on an empty etcd. -/
def poolTable : Lts PoolTable PoolEvent where
  init s := s = {}
  step s l s' := s.step l = some s'

/-! ## The ids of pools -/

/-- What decides the ids: a creation gets an id above `lastSeenPoolId`
that no creation in progress has, and after a restart there is a stored
pool or image with an id as great as each one returned before. -/
def PoolIdSafe (s : PoolTable) : PoolEvent → Prop
  | .createBegin name _ _ _ _ =>
    s.named name = none →
      s.lastSeenPoolId < s.findUsablePoolId ∧ ∀ c ∈ s.creating, c.poolId ≠ s.findUsablePoolId
  | .restart images => ∀ p ∈ s.returned, ∃ q ∈ s.stored.keys ++ images, p ≤ q
  | _ => True

/-- What every safe step keeps. -/
structure PoolIdInv (s : PoolTable) : Prop where
  returned : s.returned.Nodup
  seen : ∀ p ∈ s.returned, p ≤ s.lastSeenPoolId
  creating : (s.creating.map (·.poolId)).Nodup
  fresh : ∀ c ∈ s.creating, c.poolId ∉ s.returned

namespace PoolTable

variable {s s' : PoolTable}

/-- Entries that are read one after another, each with an id. -/
theorem foldl_ids {α : Type*} {f : PoolTable → α → PoolTable} {g : α → Int}
    (hf : ∀ s a, (f s a).returned = s.returned ∧ (f s a).creating = s.creating ∧
      s.lastSeenPoolId ≤ (f s a).lastSeenPoolId ∧ g a ≤ (f s a).lastSeenPoolId) (l : List α) (s : PoolTable) :
    (l.foldl f s).returned = s.returned ∧ (l.foldl f s).creating = s.creating ∧
      s.lastSeenPoolId ≤ (l.foldl f s).lastSeenPoolId ∧ ∀ a ∈ l, g a ≤ (l.foldl f s).lastSeenPoolId := by
  induction l generalizing s with
  | nil => exact ⟨rfl, rfl, le_rfl, nofun⟩
  | cons a l ih =>
    obtain ⟨hr, hc, hl, ha⟩ := hf s a
    obtain ⟨hr', hc', hl', ha'⟩ := ih (f s a)
    refine ⟨hr'.trans hr, hc'.trans hc, hl.trans hl', fun b hb => ?_⟩
    rcases List.mem_cons.mp hb with rfl | hb
    · exact ha.trans hl'
    · exact ha' b hb

/-- `lastSeenPoolId` after a restart is as great as every id that is
read. -/
theorem restart_ids (s : PoolTable) (images : List Int) :
    (s.restart images).returned = s.returned ∧ (s.restart images).creating = [] ∧
      ∀ q ∈ s.stored.keys ++ images, q ≤ (s.restart images).lastSeenPoolId := by
  have hmax : ∀ m n : Int, m ≤ (if m < n then n else m) ∧ n ≤ (if m < n then n else m) := fun m n => by
    split <;> omega
  obtain ⟨hr, hc, -, hp⟩ := foldl_ids (f := loadPool) (g := (·.1))
    (fun s e => ⟨rfl, rfl, hmax ..⟩) s.stored.entries s.fresh
  obtain ⟨hr', hc', hl', hi⟩ := foldl_ids (f := loadImage) (g := id) (fun s i => ⟨rfl, rfl, hmax ..⟩) images
    (s.stored.entries.foldl loadPool s.fresh)
  refine ⟨hr'.trans hr, hc'.trans hc, fun q hq => ?_⟩
  rcases List.mem_append.mp hq with hq | hq
  · obtain ⟨e, hmem, rfl⟩ := List.mem_map.mp hq
    exact (hp e hmem).trans hl'
  · exact hi q hq

/-! What a step of a handler can do. -/

theorem lookup_cases {handler : Handler} {poolId : Int} (h : s.lookup handler poolId = some s') :
    s' = s ∨ ∃ object, s.pools.lookup poolId = some object ∧
      s' = { s with waiting := s.waiting ++ [⟨handler, poolId, object⟩] } := by
  unfold lookup at h
  split at h
  · cases h
  split at h
  · next object ho =>
    cases h
    exact .inr ⟨object, ho, rfl⟩
  · cases h
    exact .inl rfl

theorem deleteLookup_cases {name : Bytes} (h : s.deleteLookup name = some s') :
    ∃ poolId object, s.pools.lookup poolId = some object ∧
      s' = { s with waiting := [⟨.deletePool, poolId, object⟩] } := by
  unfold deleteLookup at h
  split at h
  · cases h
  obtain ⟨pool, -, h⟩ := Option.bind_eq_some_iff.mp h
  obtain ⟨object, ho, h⟩ := Option.bind_eq_some_iff.mp h
  cases h
  exact ⟨pool.poolid, object, ho, rfl⟩

theorem changePgs_cases {w : World} {wt : Waiter} {pool : PoolObject} (h : s.changePgs w wt pool = some s') :
    ∃ pgs bump, wt.handler.work w pool.config = .ok (pgs, bump) ∧
      s' = { s with
        objects := s.objects.set wt.object { pool with
          version := if bump then int64 (pool.version + 1) else pool.version
          config := { pool.config with pgs := pgs } }
        working := if bump then s.working ++ [wt] else s.working } := by
  unfold changePgs at h
  split at h
  · cases h
  · next pgs bump hw =>
    cases h
    exact ⟨pgs, bump, hw, rfl⟩

theorem leave_cases {i : Nat} {torn : Int × List PGConfig} (h : s.leave i torn = some s') :
    ∃ wt, s.working[i]? = some wt ∧
      (s' = { s with
          working := s.working.eraseIdx i
          pools := s.pools.insert wt.poolId wt.object
          unsaved := s.unsaved ++ [(wt.poolId, wt.object)] } ∨
        ∃ object pool pool', s.pools.lookup wt.poolId = some object ∧ s.objects[object]? = some pool ∧
          (object = wt.object → pool' = pool) ∧
          s' = { s with
            working := s.working.eraseIdx i
            objects := s.objects.set object pool'
            writes := s.writes ++ [(wt.poolId, pool')] }) := by
  obtain ⟨wt, hwt, h⟩ := Option.bind_eq_some_iff.mp h
  refine ⟨wt, hwt, ?_⟩
  split at h
  · cases h
    exact .inl rfl
  · obtain ⟨object, ho, h⟩ := Option.bind_eq_some_iff.mp h
    obtain ⟨pool, hpool, h⟩ := Option.bind_eq_some_iff.mp h
    cases h
    exact .inr ⟨object, pool, _, ho, hpool, fun he => if_pos he, rfl⟩

theorem handle_cases {i : Nat} {w : World} (h : s.handle i w = some s') :
    ∃ wt pool, s.waiting[i]? = some wt ∧ s.objects[wt.object]? = some pool ∧ s.locked wt.object = false ∧
      ((∃ clientVersion, wt.handler = .getPgMap clientVersion ∧
          s' = ({ s with waiting := s.waiting.eraseIdx i } : PoolTable).receive wt.poolId
            (pool.getPgMap clientVersion)) ∨
        s' = { s with waiting := s.waiting.eraseIdx i, deleting := s.deleting ++ [(wt.poolId, wt.object)] } ∨
        wt.handler.changes = true ∧
          ({ s with waiting := s.waiting.eraseIdx i } : PoolTable).changePgs w wt pool = some s') := by
  obtain ⟨wt, hwt, h⟩ := Option.bind_eq_some_iff.mp h
  obtain ⟨pool, hpool, h⟩ := Option.bind_eq_some_iff.mp h
  split at h
  · cases h
  next hlocked =>
  refine ⟨wt, pool, hwt, hpool, by simpa using hlocked, ?_⟩
  dsimp only at h
  split at h
  · next v hv =>
    cases h
    exact .inl ⟨v, hv, rfl⟩
  · cases h
    exact .inr (.inl rfl)
  · next hg hd =>
    refine .inr (.inr ⟨?_, h⟩)
    cases hh : wt.handler with
    | getPgMap v => exact absurd hh (hg v)
    | deletePool => exact absurd hh hd
    | _ => rfl

theorem receive_cases (s : PoolTable) (poolId : Int) (answer : Option PgMapAnswer) :
    s.receive poolId answer = s ∨ ∃ version pgs, answer = some (.pgMapGetOk version pgs) ∧
      s.receive poolId answer = { s with received := s.received ++ [⟨poolId, version, pgs⟩] } := by
  unfold receive
  split
  · exact .inr ⟨_, _, rfl, rfl⟩
  · exact .inl rfl

end PoolTable

namespace PoolIdInv

variable {s s' : PoolTable}

/-- Steps that have nothing to do with ids, or end a creation. -/
theorem frame (h : PoolIdInv s) (hr : s'.returned = s.returned) (hl : s'.lastSeenPoolId = s.lastSeenPoolId)
    (hc : (s'.creating.map (·.poolId)).Sublist (s.creating.map (·.poolId))) : PoolIdInv s' where
  returned := hr ▸ h.returned
  seen := by rw [hr, hl]; exact h.seen
  creating := h.creating.sublist hc
  fresh c hc' := by
    obtain ⟨c₀, hc₀, he⟩ := List.mem_map.mp (hc.subset (List.mem_map_of_mem hc'))
    rw [hr, ← he]
    exact h.fresh c₀ hc₀

theorem createBegin (h : PoolIdInv s) {name root : Bytes} {size pgCount : Nat} {failureDomain : Level}
    (hsafe : PoolIdSafe s (.createBegin name size pgCount failureDomain root))
    (hs : s.createBegin name size pgCount failureDomain root = some s') : PoolIdInv s' := by
  unfold PoolTable.createBegin at hs
  split at hs
  · cases hs
  split at hs
  · cases hs
    exact h
  next hname =>
  obtain ⟨hlt, hne⟩ := hsafe (Option.not_isSome_iff_eq_none.mp hname)
  cases hs
  refine ⟨h.returned, h.seen, ?_, fun c hc hmem => ?_⟩
  · rw [List.map_append, List.nodup_append]
    refine ⟨h.creating, List.nodup_singleton _, fun p hp q hq => ?_⟩
    obtain ⟨c, hc, rfl⟩ := List.mem_map.mp hp
    obtain rfl := List.mem_singleton.mp hq
    exact hne c hc
  · rcases List.mem_append.mp hc with hc | hc
    · exact h.fresh c hc hmem
    · obtain rfl := List.mem_singleton.mp hc
      exact Int.not_le.mpr hlt (h.seen _ hmem)

theorem createEnd (h : PoolIdInv s) {i coreNum : Nat} {topology : Topology} {choices : Choices} {put reached : Bool}
    (hs : s.createEnd i topology coreNum choices put reached = some s') : PoolIdInv s' := by
  obtain ⟨c, hc, hs⟩ := Option.bind_eq_some_iff.mp hs
  obtain ⟨pool, -, hs⟩ := Option.bind_eq_some_iff.mp hs
  have herase : ((s.creating.eraseIdx i).map (·.poolId)).Sublist (s.creating.map (·.poolId)) :=
    (List.eraseIdx_sublist ..).map _
  have hset : (s.creating.set i { c with written := true }).map (·.poolId) = s.creating.map (·.poolId) := by
    have hget : (s.creating.map (·.poolId))[i]? = some c.poolId := by rw [List.getElem?_map, hc]; rfl
    obtain ⟨hi, he⟩ := List.getElem?_eq_some_iff.mp hget
    rw [List.map_set, ← he, List.set_getElem_self]
  split at hs
  · cases hs
  dsimp only at hs
  split at hs
  · cases hs
  · cases hs
  · cases hs
    exact h.frame rfl rfl herase
  · cases hs
    exact h.frame rfl rfl herase
  · split at hs
    · cases hs
      exact h.frame rfl rfl (hset ▸ .refl _)
    · cases hs
      exact h.frame rfl rfl herase

theorem createReturn (h : PoolIdInv s) {i : Nat} (hs : s.createReturn i = some s') : PoolIdInv s' := by
  obtain ⟨c, hc, hs⟩ := Option.bind_eq_some_iff.mp hs
  have hmem : c ∈ s.creating := List.mem_of_getElem? hc
  have hperm : (c :: s.creating.eraseIdx i).Perm s.creating := by
    obtain ⟨hi, rfl⟩ := List.getElem?_eq_some_iff.mp hc
    exact List.getElem_cons_eraseIdx_perm hi
  have hnodup := (hperm.map (·.poolId)).nodup_iff.mpr h.creating
  rw [List.map_cons, List.nodup_cons] at hnodup
  split at hs
  · cases hs
    refine ⟨?_, fun p hp => ?_, hnodup.2, fun d hd hmem' => ?_⟩
    · exact List.nodup_append.mpr ⟨h.returned, List.nodup_singleton _, fun p hp q hq e =>
        h.fresh c hmem (List.mem_singleton.mp hq ▸ e ▸ hp)⟩
    · have hle : s.lastSeenPoolId ≤ (if s.lastSeenPoolId < c.poolId then c.poolId else s.lastSeenPoolId) ∧
          c.poolId ≤ (if s.lastSeenPoolId < c.poolId then c.poolId else s.lastSeenPoolId) := by
        split <;> omega
      rcases List.mem_append.mp hp with hp | hp
      · exact (h.seen p hp).trans hle.1
      · exact List.mem_singleton.mp hp ▸ hle.2
    · rcases List.mem_append.mp hmem' with hp | hp
      · exact h.fresh d (List.mem_of_mem_eraseIdx hd) hp
      · exact hnodup.1 (List.mem_map.mpr ⟨d, hd, List.mem_singleton.mp hp⟩)
  · cases hs

theorem restart (h : PoolIdInv s) {images : List Int} (hsafe : PoolIdSafe s (.restart images)) :
    PoolIdInv (s.restart images) := by
  obtain ⟨hr, hc, hl⟩ := s.restart_ids images
  refine ⟨hr ▸ h.returned, fun p hp => ?_, by simp [hc], by simp [hc]⟩
  obtain ⟨q, hq, hle⟩ := hsafe p (hr ▸ hp)
  exact hle.trans (hl q hq)

theorem step (h : PoolIdInv s) {l : PoolEvent} (hsafe : PoolIdSafe s l) (hs : s.step l = some s') : PoolIdInv s' := by
  cases l with
  | createBegin => exact h.createBegin hsafe hs
  | createEnd => exact h.createEnd hs
  | createReturn => exact h.createReturn hs
  | restart => exact Option.some.inj hs ▸ h.restart hsafe
  | lookup =>
    obtain rfl | ⟨o, -, rfl⟩ := PoolTable.lookup_cases hs
    · exact h
    · exact h.frame rfl rfl (.refl _)
  | deleteLookup =>
    obtain ⟨p, o, -, rfl⟩ := PoolTable.deleteLookup_cases hs
    exact h.frame rfl rfl (.refl _)
  | handle i =>
    obtain ⟨wt, pool, -, -, -, ⟨v, -, rfl⟩ | rfl | ⟨-, hs⟩⟩ := PoolTable.handle_cases hs
    · obtain he | ⟨version, pgs, -, he⟩ := PoolTable.receive_cases { s with waiting := s.waiting.eraseIdx i } wt.poolId
        (pool.getPgMap v)
      · rw [he]
        exact h.frame rfl rfl (.refl _)
      · rw [he]
        exact h.frame rfl rfl (.refl _)
    · exact h.frame rfl rfl (.refl _)
    · obtain ⟨pgs, bump, -, rfl⟩ := PoolTable.changePgs_cases hs
      exact h.frame rfl rfl (.refl _)
  | leave =>
    obtain ⟨wt, -, rfl | ⟨o, pool, pool', -, -, -, rfl⟩⟩ := PoolTable.leave_cases hs
    · exact h.frame rfl rfl (.refl _)
    · exact h.frame rfl rfl (.refl _)
  | deleteEnd =>
    obtain ⟨d, -, hs⟩ := Option.bind_eq_some_iff.mp hs
    cases hs
    exact h.frame rfl rfl (.refl _)
  | marshal =>
    obtain ⟨d, -, hs⟩ := Option.bind_eq_some_iff.mp hs
    obtain ⟨o, -, hs⟩ := Option.bind_eq_some_iff.mp hs
    cases hs
    exact h.frame rfl rfl (.refl _)
  | put =>
    obtain ⟨d, -, hs⟩ := Option.bind_eq_some_iff.mp hs
    cases hs
    exact h.frame rfl rfl (.refl _)

end PoolIdInv

theorem poolId_inductive : (poolTable.restrict PoolIdSafe).Inductive PoolIdInv where
  init s hs := by
    obtain rfl : s = {} := hs
    exact ⟨.nil, nofun, .nil, nofun⟩
  step s l s' h hs := h.step hs.1 hs.2

/-- In every run whose steps are safe, no pool id is returned twice. -/
theorem pool_ids_unique {s : PoolTable} (h : (poolTable.restrict PoolIdSafe).Reachable s) : s.returned.Nodup :=
  (poolId_inductive.reachable h).returned

instance (s : PoolTable) : DecidablePred (PoolIdSafe s)
  | .createBegin .. => inferInstanceAs (Decidable (_ → _ ∧ _))
  | .restart _ => inferInstanceAs (Decidable (∀ _ ∈ _, _))
  | .createEnd .. | .createReturn _ | .lookup .. | .deleteLookup _ | .handle .. | .leave .. | .deleteEnd ..
  | .marshal _ | .put .. => .isTrue trivial

/-- The steps meet `G`, one after another, and end in a state with
property `P`. -/
def poolsEnd (G : PoolTable → PoolEvent → Prop) [∀ s l, Decidable (G s l)] (P : PoolTable → Bool)
    (ls : List PoolEvent) : Bool :=
  (Lts.follow PoolTable.step G {} ls).any P

theorem poolsEnd_reachable {G : PoolTable → PoolEvent → Prop} [∀ s l, Decidable (G s l)] {P : PoolTable → Bool}
    {ls : List PoolEvent} (h : poolsEnd G P ls = true) : ∃ s, (poolTable.restrict G).Reachable s ∧ P s = true := by
  obtain ⟨s, hs, hP⟩ := (Option.any_eq_true _ _).mp h
  have h0 : (poolTable.restrict G).Reachable {} := .of_init rfl
  exact ⟨s, h0.follow (fun _ _ _ h => h) hs, hP⟩

/-- Four hosts with one OSD each. -/
def fourHosts : Topology where
  osds := [⟨1, [1], 1, 1, true, true⟩, ⟨2, [2], 1, 1, true, true⟩, ⟨3, [3], 1, 1, true, true⟩,
    ⟨4, [4], 1, 1, true, true⟩]
  osdids := by decide
  hosts := []
  hostNames := List.nodup_nil
  racks := []
  rackNames := List.nodup_nil

/-- The order in which a map was filled. -/
def filledOrder (α : Type) : MapOrder α := ⟨fun _ l => l, fun _ l => .refl l⟩

/-- Hosts in turn. -/
def inTurn : Choices where
  perm := [0, 1, 2, 3]
  draws _ _ := [0, 1, 2, 3]

/-- Four OSDs, no other pools, maps in the order in which they were
filled. -/
def plainWorld : World := ⟨fourHosts, [], [0], fun _ => filledOrder _⟩

/-- The first creation in progress ends, with a result of `Put`. -/
def endCreation (put : Bool) : PoolEvent := .createEnd 0 fourHosts 1 inTurn put false

/-- A pool with a PG of three members. -/
def newPool (name : Bytes) : List PoolEvent :=
  [.createBegin name 3 1 .host [], endCreation true, .createReturn 0]

def deletePool (name : Bytes) : List PoolEvent := [.deleteLookup name, .handle 0 plainWorld, .deleteEnd 0 true true]

/-- Pools are created and deleted before and after a restart, and a creation
fails. -/
theorem pool_ids_unique_run :
    ∃ s, (poolTable.restrict PoolIdSafe).Reachable s ∧ s.returned = [1, 2, 3] ∧ s.returned.Nodup := by
  let events := newPool [1] ++ newPool [2] ++ deletePool [1] ++ [.createBegin [4] 3 1 .host [], endCreation false,
    .restart []] ++ newPool [3]
  have hends : poolsEnd PoolIdSafe (fun s => decide (s.returned = [1, 2, 3])) events = true := by decide +kernel
  obtain ⟨s, hs, hr⟩ := poolsEnd_reachable hends
  exact ⟨s, hs, of_decide_eq_true hr, pool_ids_unique hs⟩

/-- After the steps an id has been returned twice. -/
def returnsTwice (events : List PoolEvent) : Bool :=
  poolsEnd (fun _ _ => True) (fun s => decide (¬ s.returned.Nodup)) events

/-- The pool with the greatest id is deleted before a restart; or two
creations overlap. -/
theorem pool_id_reused :
    returnsTwice (newPool [1] ++ deletePool [1] ++ [.restart []] ++ newPool [2]) = true ∧
      returnsTwice [.createBegin [1] 3 1 .host [], .createBegin [2] 3 1 .host [], endCreation true,
        .createEnd 1 fourHosts 1 inTurn true false, .createReturn 0, .createReturn 0] = true ∧
      ∃ s, poolTable.Reachable s ∧ ¬ s.returned.Nodup := by
  have hdeleted : returnsTwice (newPool [1] ++ deletePool [1] ++ [.restart []] ++ newPool [2]) = true := by
    decide +kernel
  obtain ⟨s, hs, hr⟩ := poolsEnd_reachable hdeleted
  exact ⟨hdeleted, by decide +kernel, s, hs.of_restrict, of_decide_eq_true hr⟩

end Fastblock.L5
