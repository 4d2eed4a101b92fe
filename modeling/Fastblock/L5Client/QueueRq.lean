import Fastblock.Core.Groups
import Fastblock.L5Client.ClusterMap
import Fastblock.L5Client.Hash
import Fastblock.L5Client.Split

/-!
# Who ends a block request

`kfastblock_queue_rq` (kfastblock/src/volume.c:4541-4619), the flush
handler (1839-1865), the split of a request and the routes of its PGs
(kfastblock/src/request.c:228-285, 1387-1437), the submit state machine
(kfastblock/src/transport.c:3457-3688) and the work that completes an
object later (3207-3440). blk-mq requeues a request for which `queue_rq`
returns `BLK_STS_RESOURCE` and ends one for which it returns another
error, so the driver may end a request itself only if it returns
`BLK_STS_OK`.

Each error exit of `queue_rq` ends the request and then returns the error,
so this holds if and only if no such exit is taken: `request_owned_iff`.
The exits behind `kfastblock_transport_submit` are right.
-/
namespace Fastblock.L5

inductive ReqOp
  | read
  | write
  | flush
  | discard
  | writeZeroes
  deriving DecidableEq, Repr

structure Volume where
  ready : Bool
  queuePaused : Bool
  /-- `kfastblock_meta_io_ready` of the view -/
  ioReady : Bool
  flushInProgress : Bool
  readOnly : Bool
  view : KernelView
  /-- the PGs and the OSDs of the view -/
  map : Raw.ClusterView

structure BlkRequest where
  passthrough : Bool
  op : ReqOp
  byteOffset : Nat
  byteLength : Nat

/-- What a call of `queue_rq` meets on its way. -/
structure Outcomes where
  /-- `kfastblock_volume_drain_io` ends within its 5 seconds -/
  drained : Bool
  /-- the allocations of `kfastblock_request_init` succeed -/
  allocated : Bool
  /-- the allocation for the targets of a PG succeeds -/
  targetsAllocated : Nat → Bool
  viewStale : Option KErrno
  /-- leader and socket of one PG in
  `kfastblock_transport_prefetch_submit_leaders` -/
  prefetch : Nat → Option KErrno
  dispatchWindow : Nat
  /-- `queue_work` takes the work of an object -/
  queueWork : Nat → Bool

inductive ObjectState
  | ready
  | queued
  | inFlight
  | done
  | failed
  | cancelled
  deriving DecidableEq, Repr

/-- A request in the driver. -/
structure Io where
  /-- the calls of `blk_mq_end_request`, latest first -/
  ended : List BlkStatus := []
  /-- `kfastblock_volume_get_io` less `kfastblock_volume_put_io` -/
  inflight : Int := 0
  status : Option KErrno := none
  objects : List ObjectState := []
  cursor : Nat := 0
  pending : Int := 0
  window : Nat := 0
  /-- the objects with a work that is queued -/
  works : List Nat := []

namespace Io

variable (io : Io)

def endRequest (status : BlkStatus) : Io := { io with ended := status :: io.ended }
def getIo : Io := { io with inflight := io.inflight + 1 }
def putIo : Io := { io with inflight := io.inflight - 1 }

def setObject (i : Nat) (s : ObjectState) : Io := { io with objects := io.objects.set i s }

/-- `kfastblock_transport_set_first_error`. -/
def setFirstError (ret : Option KErrno) : Bool × Io :=
  if ret.isSome ∧ io.status.isNone then (true, { io with status := ret }) else (false, io)

/-- `kfastblock_request_pick_dispatch_batch` with a limit that is not 0. -/
def pickDispatchBatch (maxDispatch : Nat) : List Nat × Io :=
  let n := io.objects.length
  let batch := (((List.range n).map fun k => (io.cursor + k) % n).filter
    fun i => io.objects[i]? = some .ready).take maxDispatch
  let marked := batch.foldl (fun io i => io.setObject i .queued) io
  (batch, { marked with cursor := match batch.getLast? with | some i => (i + 1) % n | none => io.cursor })

/-- `kfastblock_transport_queue_object_work`. -/
def queueObjectWork (queueWork : Nat → Bool) (i : Nat) : Option KErrno × Io :=
  if i ≥ io.objects.length then (some .einval, io)
  else if io.objects[i]? ≠ some .queued then (some .ealready, io)
  else if !queueWork i then (some .ebusy, io)
  else (none, { io with works := io.works ++ [i] })

/-- `kfastblock_transport_queue_dispatch_batch`. -/
def queueDispatchBatch (queueWork : Nat → Bool) (io : Io) : List Nat → Option KErrno × Io
  | [] => (none, io)
  | i :: rest =>
    match io.queueObjectWork queueWork i with
    | (none, io) => queueDispatchBatch queueWork io rest
    | r => r

/-- `kfastblock_transport_refill_dispatch_window`. -/
def refillDispatchWindow (queueWork : Nat → Bool) : Option KErrno × Io :=
  let window := if io.window = 0 then 1 else io.window
  let dispatched := io.objects.countP fun s => s = .queued ∨ s = .inFlight
  if dispatched ≥ window then (none, io)
  else
    let (batch, io) := io.pickDispatchBatch (window - dispatched)
    io.queueDispatchBatch queueWork batch

/-- `kfastblock_request_cancel_unqueued`. -/
def cancelUnqueued : Nat × Io :=
  let open_ : ObjectState → Bool := fun s => s = .ready ∨ s = .queued
  (io.objects.countP open_, { io with objects := io.objects.map fun s => if open_ s then .cancelled else s })

/-- `kfastblock_transport_finish_request_now`. -/
def finishRequestNow : Io := (io.endRequest (errnoToBlkStatus io.status)).putIo

/-- `kfastblock_transport_object_work` of object `i`, for which the exchange
with the OSD gives `ret`: `kfastblock_transport_submit_object` and
`kfastblock_transport_complete_request`. -/
def objectWork (queueWork : Nat → Bool) (i : Nat) (ret : Option KErrno) : Io :=
  let io := { io with works := io.works.erase i }
  let ret := if io.status.isSome then some .ecanceled else ret
  let io := io.setObject i (if ret.isSome then .failed else .done)
  let (firstError, io) :=
    if ret.isSome then io.setFirstError ret
    else if io.status.isNone then
      let (err, io) := io.refillDispatchWindow queueWork
      io.setFirstError err
    else (false, io)
  let io := { io with pending := io.pending - 1 }
  let io :=
    if firstError then
      let (unscheduled, io) := io.cancelUnqueued
      { io with pending := io.pending - unscheduled }
    else io
  if io.pending = 0 then io.finishRequestNow else io

end Io

/-! ## Submitting -/

inductive SubmitStage
  | init
  | emptyDone
  | runtimeReady
  | prefetched
  | batchPrepared
  | batchQueuing
  | batchQueued
  | finished
  deriving DecidableEq, Repr

/-- `kfastblock_transport_submit_ctx`. `ret` holds an error or, after
`kfastblock_request_pick_dispatch_batch`, the size of the batch. -/
structure SubmitCtx where
  stage : SubmitStage
  ret : Except KErrno Nat
  finished : Bool
  initialDispatch : Nat
  batch : List Nat
  batchQueueIndex : Nat
  io : Io

/-- `kfastblock_transport_finish_submit_now`, which returns 0. -/
def finishSubmitNow (io : Io) (ret : Option KErrno) : Io := (io.endRequest (errnoToBlkStatus ret)).putIo

/-- The argument of `kfastblock_transport_finish_submit_now`; a positive
value ends the request like an error without a status of its own. -/
def submitErrno : Except KErrno Nat → Option KErrno
  | .error err => some err
  | .ok 0 => none
  | .ok (_ + 1) => some .eio

/-- `kfastblock_transport_prefetch_submit_leaders`. -/
def prefetchSubmitLeaders (env : Outcomes) (pgs : List Nat) : Option KErrno :=
  match env.viewStale with
  | some err => some err
  | none => pgs.findSome? fun pg => (env.prefetch pg).filter KErrno.prefetchFails

/-- `kfastblock_transport_queue_initial_dispatch`; `none` if it calls
`kfastblock_transport_abort_request`, whose loop does not leave its first
stage. -/
def queueInitialDispatch (env : Outcomes) (ctx : SubmitCtx) : Option SubmitCtx :=
  match ctx.ret with
  | .error _ | .ok (_ + 1) => some ctx
  | .ok 0 =>
    let ctx := if ctx.stage = .batchPrepared then { ctx with batchQueueIndex := 0, stage := .batchQueuing } else ctx
    match ctx.batch[ctx.batchQueueIndex]? with
    | none => some { ctx with stage := .batchQueued }
    | some i =>
      match ctx.io.queueObjectWork env.queueWork i with
      | (some _, _) => none
      | (none, io) =>
        let next := ctx.batchQueueIndex + 1
        some { ctx with
          io, batchQueueIndex := next
          stage := if next ≥ ctx.batch.length then .batchQueued else ctx.stage }

/-- `kfastblock_transport_advance_submit_ctx`: whether to go on, and the
context. -/
def advanceSubmitCtx (env : Outcomes) (pgs : List Nat) (nrObjects : Nat) (ctx : SubmitCtx) :
    Option (Bool × SubmitCtx) :=
  match ctx.stage with
  | .init =>
    if nrObjects = 0 then
      some (false, { ctx with io := finishSubmitNow ctx.io none, ret := .ok 0, finished := true, stage := .emptyDone })
    else
      some (true, { ctx with
        io := { ctx.io with
          status := none, objects := List.replicate nrObjects .ready, cursor := 0, pending := nrObjects
          window := env.dispatchWindow }
        initialDispatch := min nrObjects (if env.dispatchWindow = 0 then 1 else env.dispatchWindow)
        stage := .runtimeReady })
  | .runtimeReady =>
    match prefetchSubmitLeaders env pgs with
    | some err => some (false, { ctx with ret := .error err })
    | none => some (true, { ctx with ret := .ok 0, stage := .prefetched })
  | .prefetched =>
    if ctx.initialDispatch = 0 then none
    else
      let (batch, io) := ctx.io.pickDispatchBatch ctx.initialDispatch
      some (true, { ctx with batch, io, ret := .ok batch.length, stage := .batchPrepared })
  | .batchPrepared | .batchQueuing => do
    let ctx ← queueInitialDispatch env ctx
    return (ctx.ret.isOk && ctx.stage = .batchQueuing, ctx)
  | .batchQueued | .emptyDone => some (false, { ctx with finished := true, stage := .finished })
  | .finished => some (false, { ctx with io := finishSubmitNow ctx.io (submitErrno ctx.ret), finished := true })

/-- The loop of `kfastblock_transport_run_request_submit`. -/
def submitLoop (env : Outcomes) (pgs : List Nat) (nrObjects : Nat) : Nat → SubmitCtx → Option SubmitCtx
  | 0, _ => none
  | rounds + 1, ctx =>
    if ctx.finished then some ctx
    else
      match advanceSubmitCtx env pgs nrObjects ctx with
      | none => none
      | some (false, ctx) => some ctx
      | some (true, ctx) => submitLoop env pgs nrObjects rounds ctx

/-- `kfastblock_transport_submit`, which returns 0 if it returns. No run has
more rounds than stages and objects. -/
def transportSubmit (env : Outcomes) (pgs : List Nat) (nrObjects : Nat) (io : Io) : Option Io := do
  let ctx ← submitLoop env pgs nrObjects (nrObjects + 8) ⟨.init, .ok 0, false, 0, [], 0, io⟩
  return match ctx.ret with
    | .error err => finishSubmitNow ctx.io (some err)
    | .ok _ => ctx.io

/-! ## `queue_rq` -/

/-- `blk_mq_end_request(rq, status); return status;` -/
def endAndReturn (io : Io) (status : BlkStatus) : Option (BlkStatus × Io) := some (status, io.endRequest status)

/-- `kfastblock_volume_handle_flush`. -/
def handleFlush (vol : Volume) (env : Outcomes) : Option (BlkStatus × Io) :=
  if vol.flushInProgress then endAndReturn {} .resource
  else endAndReturn {} (if env.drained then .ok else .resource)

/-- `kfastblock_request_init`. -/
def requestInit (vol : Volume) (rq : BlkRequest) (env : Outcomes) : Option KErrno :=
  if estimateExtentCount vol.view.info.objectSize rq.byteOffset rq.byteLength > maxObjectExtents then some .e2big
  else if !env.allocated then some .enomem
  else none

/-- `kfastblock_request_pg_target`. -/
structure PgTarget where
  osdId : Nat
  flags : Nat
  port : Nat
  address : Bytes

/-- `kfastblock_request_pg_hint`; `nr_targets` is the length of the list. -/
structure PgHint where
  pgId : Nat
  leader : Option Raw.LeaderInfo
  targets : List PgTarget

/-- `pg_id` of an extent. -/
def Volume.pgOf (vol : Volume) (e : Extent) : Nat :=
  (requestCalcPg e.objectName (UInt32.ofNat vol.map.pgCount)).toNat

/-- One replica in `kfastblock_request_capture_pg_hints`. -/
def Volume.pgTarget (vol : Volume) (pgId osdId : Nat) : Except KErrno PgTarget :=
  match vol.map.resolvePgTarget vol.view.info.poolId pgId osdId with
  | none => .error .enoent
  | some (_, osd, shard) => .ok ⟨osd.osdId, osd.flags, shard.port, osd.address⟩

/-- One PG in `kfastblock_request_capture_pg_hints`, request.c:238-282. -/
def capturePgHint (vol : Volume) (env : Outcomes) (pgId : Nat) : Except KErrno PgHint :=
  match vol.map.findPgRoute vol.view.info.poolId pgId with
  | none => .error .enoent
  | some route =>
    if route.osdIds = [] then .error .enoent
    else if !env.targetsAllocated pgId then .error .enomem
    else (route.osdIds.mapM (vol.pgTarget pgId)).map fun targets => ⟨pgId, route.leader, targets⟩

/-- `kfastblock_request_split` of a request that is initialised: the objects
and the hints. -/
def requestSplit (vol : Volume) (rq : BlkRequest) (env : Outcomes) : Except KErrno (List Extent × List PgHint) :=
  match kernelRequest vol.view vol.map.pgCount rq.byteOffset rq.byteLength with
  | .error .einval => .error .einval
  | .error .e2big => .error .e2big
  | .ok es => ((es.map vol.pgOf).eraseDups.mapM (capturePgHint vol env)).map fun hints => (es, hints)

/-- `kfastblock_queue_rq`; `none` if it does not return. -/
def queueRq (vol : Option Volume) (rq : BlkRequest) (env : Outcomes) : Option (BlkStatus × Io) :=
  match vol with
  | none => endAndReturn {} .resource
  | some vol =>
    if !vol.ready || vol.queuePaused then endAndReturn {} .resource
    else if rq.passthrough then endAndReturn {} .ioerr
    else if rq.op = .flush then handleFlush vol env
    else if vol.readOnly && (rq.op = .write || rq.op = .writeZeroes || rq.op = .discard) then endAndReturn {} .ioerr
    else if !vol.ioReady then endAndReturn {} .resource
    else if vol.flushInProgress then endAndReturn {} .resource
    else
      let io := ({} : Io).getIo
      match requestInit vol rq env with
      | some _ => endAndReturn io.putIo .ioerr
      | none =>
        match requestSplit vol rq env with
        | .error _ => endAndReturn io.putIo .ioerr
        | .ok (es, hints) => (transportSubmit env (hints.map (·.pgId)) es.length io).map fun io => (.ok, io)

/-! ## Submitting always returns and queues no work -/

/-- What the stages before the dispatch leave alone. -/
structure Io.SameOwner (io io' : Io) : Prop where
  ended : io'.ended = io.ended
  inflight : io'.inflight = io.inflight
  works : io'.works = io.works

theorem Io.pickDispatchBatch_sameOwner (io : Io) (n : Nat) : io.SameOwner (io.pickDispatchBatch n).2 := by
  have hfold : ∀ (batch : List Nat) (io : Io),
      io.SameOwner (batch.foldl (fun io i => io.setObject i .queued) io) := fun batch => by
    induction batch with
    | nil => exact fun io => ⟨rfl, rfl, rfl⟩
    | cons i batch ih =>
      intro io
      have h := ih (io.setObject i .queued)
      exact ⟨h.ended, h.inflight, h.works⟩
  have h := hfold (io.pickDispatchBatch n).1 io
  exact ⟨h.ended, h.inflight, h.works⟩

section Submit

variable {env : Outcomes} {pgs : List Nat} {nrObjects rounds : Nat} {ctx ctx' : SubmitCtx}

theorem submitLoop_step (hf : ctx.finished = false) (h : advanceSubmitCtx env pgs nrObjects ctx = some (true, ctx')) :
    submitLoop env pgs nrObjects (rounds + 1) ctx = submitLoop env pgs nrObjects rounds ctx' := by
  simp only [submitLoop, hf, h, Bool.false_eq_true, if_false]

theorem submitLoop_stop (hf : ctx.finished = false) (h : advanceSubmitCtx env pgs nrObjects ctx = some (false, ctx')) :
    submitLoop env pgs nrObjects (rounds + 1) ctx = some ctx' := by
  simp only [submitLoop, hf, h, Bool.false_eq_true, if_false]

/-- The batch is picked, its size is left in `ret`, and the dispatch takes
it for an error. -/
theorem submitLoop_prefetched (hs : ctx.stage = .prefetched) (hf : ctx.finished = false)
    (hd : ctx.initialDispatch ≠ 0) :
    ∃ ctx', submitLoop env pgs nrObjects (rounds + 2) ctx = some ctx' ∧ (∃ n, ctx'.ret = .ok n) ∧
      ctx.io.SameOwner ctx'.io := by
  have hpick := ctx.io.pickDispatchBatch_sameOwner ctx.initialDispatch
  generalize hb : ctx.io.pickDispatchBatch ctx.initialDispatch = p at hpick
  obtain ⟨batch, io⟩ := p
  have hstep : advanceSubmitCtx env pgs nrObjects ctx =
      some (true, { ctx with batch, io, ret := .ok batch.length, stage := .batchPrepared }) := by
    simp only [advanceSubmitCtx, hs, hd, hb, if_false]
  rw [submitLoop_step hf hstep]
  cases batch with
  | nil => exact ⟨_, submitLoop_stop hf rfl, ⟨_, rfl⟩, hpick⟩
  | cons i batch => exact ⟨_, submitLoop_stop hf rfl, ⟨_, rfl⟩, hpick⟩

/-- Submitting returns 0, and no work is queued. A request with objects is
ended here only if the prefetch fails. -/
theorem transportSubmit_returns (env : Outcomes) (pgs : List Nat) (nrObjects : Nat) (io : Io) :
    ∃ io', transportSubmit env pgs nrObjects io = some io' ∧ io'.works = io.works ∧
      (nrObjects ≠ 0 → io'.ended =
        ((prefetchSubmitLeaders env pgs).map fun err => errnoToBlkStatus (some err)).toList ++ io.ended) := by
  by_cases hn : nrObjects = 0
  · subst hn
    exact ⟨_, rfl, rfl, fun h => absurd rfl h⟩
  have hdisp : min nrObjects (if env.dispatchWindow = 0 then 1 else env.dispatchWindow) ≠ 0 := by
    split <;> omega
  have hinit := @submitLoop_step env pgs nrObjects (nrObjects + 7) ⟨.init, .ok 0, false, 0, [], 0, io⟩ _ rfl
    (by simp only [advanceSubmitCtx, hn, if_false]; rfl)
  simp only [transportSubmit, hinit]
  cases hp : prefetchSubmitLeaders env pgs with
  | some err =>
    rw [submitLoop_stop rfl (by simp only [advanceSubmitCtx, hp]; rfl)]
    exact ⟨_, rfl, rfl, fun _ => rfl⟩
  | none =>
    rw [submitLoop_step rfl (by simp only [advanceSubmitCtx, hp]; rfl)]
    obtain ⟨ctx', hctx, hok, hsame⟩ := @submitLoop_prefetched env pgs nrObjects (nrObjects + 4)
      { stage := .prefetched, ret := .ok 0, finished := false, initialDispatch := _, batch := [], batchQueueIndex := 0,
        io := { io with
          status := none, objects := List.replicate nrObjects .ready, cursor := 0, pending := nrObjects
          window := env.dispatchWindow } } rfl rfl hdisp
    rw [hctx]
    refine ⟨ctx'.io, ?_, hsame.works, fun _ => hsame.ended⟩
    obtain ⟨n, hret⟩ := hok
    simp only [Option.bind_eq_bind, Option.bind_some, hret]
    rfl

end Submit

/-! ## Progress -/

/-- The prefetch of the leaders fails: the view is stale, or a PG gives an
error that fails the request. -/
def PrefetchFails (env : Outcomes) (pgs : List Nat) : Prop :=
  env.viewStale.isSome ∨ ∃ pg ∈ pgs, ∃ err, env.prefetch pg = some err ∧ err.prefetchFails = true

theorem prefetchSubmitLeaders_isSome (env : Outcomes) (pgs : List Nat) :
    (prefetchSubmitLeaders env pgs).isSome ↔ PrefetchFails env pgs := by
  unfold prefetchSubmitLeaders PrefetchFails
  cases env.viewStale with
  | some err => simp
  | none =>
    simp only [Option.isSome_none, Bool.false_eq_true, false_or, List.isSome_findSome?, List.any_eq_true]
    refine exists_congr fun pg => and_congr_right fun _ => ?_
    cases env.prefetch pg <;> simp [Option.filter]

/-- A request with objects of which nothing is queued and that is not ended:
submitting it queues a work or ends it if and only if the prefetch fails.
After a prefetch that succeeds the size of the first batch is taken for an
error, so that no work is queued and nobody ends the request. -/
theorem submit_progress_iff (env : Outcomes) (pgs : List Nat) (nrObjects : Nat) (io : Io) (hn : 0 < nrObjects)
    (hworks : io.works = []) (hended : io.ended = []) :
    (∃ io', transportSubmit env pgs nrObjects io = some io' ∧ (io'.works ≠ [] ∨ io'.ended ≠ [])) ↔
      PrefetchFails env pgs := by
  obtain ⟨io', hio', hw, he⟩ := transportSubmit_returns env pgs nrObjects io
  have he := he (by omega)
  rw [← prefetchSubmitLeaders_isSome]
  constructor
  · intro h
    obtain ⟨io'', hio'', h⟩ := h
    obtain rfl := Option.some.inj (hio'.symm.trans hio'')
    cases hp : prefetchSubmitLeaders env pgs with
    | some err => rfl
    | none => simp [hw, hworks, he, hended, hp] at h
  · intro h
    obtain ⟨err, hp⟩ := Option.isSome_iff_exists.mp h
    exact ⟨io', hio', .inr (by simp [he, hp])⟩

/-- The PG of the request is unknown to the view: the request is ended. -/
theorem submit_progress_unknown_pg :
    ∃ io', transportSubmit ⟨true, true, fun _ => true, none, fun _ => some .enoent, 1, fun _ => true⟩ [0] 1
      {} = some io' ∧ (io'.works ≠ [] ∨ io'.ended ≠ []) :=
  (submit_progress_iff _ [0] 1 {} (by decide) rfl rfl).mpr (.inr ⟨0, by decide, .enoent, rfl, rfl⟩)

/-- One object, and the prefetch succeeds: the object is marked as queued
without a work, and the request is left without an end. -/
theorem submit_left_behind :
    (transportSubmit ⟨true, true, fun _ => true, none, fun _ => none, 1, fun _ => true⟩ [0] 1 {}).map
      (fun io => (io.works, io.ended, io.objects)) = some ([], [], [.queued]) := by
  decide +kernel

/-! ## Ownership -/

/-- What the works of a request do after `queue_rq`. -/
inductive Later (env : Outcomes) : Io → Io → Prop
  | now (io : Io) : Later env io io
  | work {io io' : Io} (i : Nat) (ret : Option KErrno) (hi : i ∈ io.works)
      (h : Later env (io.objectWork env.queueWork i ret) io') : Later env io io'

/-- `queue_rq` returns, it ends the request only if it returns `BLK_STS_OK`,
now or later, and in the other cases it does not hold the request. -/
def Owned (vol : Option Volume) (rq : BlkRequest) (env : Outcomes) : Prop :=
  ∃ status io, queueRq vol rq env = some (status, io) ∧
    ∀ io', Later env io io' →
      (io'.ended ≠ [] → status = .ok) ∧ (status ≠ .ok → io'.ended = [] ∧ io'.inflight = 0)

/-- The view has a route of the PG, with replicas, and each of their OSDs
with the shard that serves the PG; and there is memory for them. -/
def Volume.Routes (v : Volume) (env : Outcomes) (pgId : Nat) : Prop :=
  env.targetsAllocated pgId = true ∧
    ∃ route, v.map.findPgRoute v.view.info.poolId pgId = some route ∧ route.osdIds ≠ [] ∧
    ∀ osdId ∈ route.osdIds, ∃ osd, v.map.findOsd osdId = some osd ∧ (osd.findShard route.primaryShard).isSome = true

/-- The volume takes requests, and this one can be split. -/
def Volume.Accepts (v : Volume) (rq : BlkRequest) (env : Outcomes) : Prop :=
  v.ready = true ∧ v.queuePaused = false ∧ rq.passthrough = false ∧ v.flushInProgress = false ∧
    if rq.op = .flush then env.drained = true
    else
      (v.readOnly = true → rq.op = .read) ∧ v.ioReady = true ∧ env.allocated = true ∧
      estimateExtentCount v.view.info.objectSize rq.byteOffset rq.byteLength ≤ maxObjectExtents ∧
      0 < v.view.info.objectSize ∧ 0 < v.map.pgCount ∧
      ∀ es, kernelRequest v.view v.map.pgCount rq.byteOffset rq.byteLength = .ok es → ∀ e ∈ es, v.Routes env (v.pgOf e)

def Accepted (vol : Option Volume) (rq : BlkRequest) (env : Outcomes) : Prop := ∃ v, vol = some v ∧ v.Accepts rq env

section Cases

variable {v : Volume} {rq : BlkRequest} {env : Outcomes}

theorem requestInit_eq_none :
    requestInit v rq env = none ↔
      estimateExtentCount v.view.info.objectSize rq.byteOffset rq.byteLength ≤ maxObjectExtents ∧
        env.allocated = true := by
  unfold requestInit
  split
  · next h => exact iff_of_false (by simp) fun hc => absurd hc.1 (Nat.not_le.mpr h)
  · next h =>
    cases env.allocated
    · simp
    · simpa using Nat.not_lt.mp h

theorem pgTarget_ok {pgId osdId : Nat} {route : Raw.PgRoute}
    (hroute : v.map.findPgRoute v.view.info.poolId pgId = some route) (hmem : osdId ∈ route.osdIds) :
    (∃ target, v.pgTarget pgId osdId = .ok target) ↔
      ∃ osd, v.map.findOsd osdId = some osd ∧ (osd.findShard route.primaryShard).isSome = true := by
  simp only [Volume.pgTarget, Raw.ClusterView.resolvePgTarget, hroute, hmem, not_true_eq_false, if_false,
    Option.bind_eq_bind, Option.bind_some]
  cases v.map.findOsd osdId with
  | none => simp
  | some osd => cases hshard : osd.findShard route.primaryShard <;> simp [hshard]

theorem capturePgHint_ok {pgId : Nat} : (∃ hint, capturePgHint v env pgId = .ok hint) ↔ v.Routes env pgId := by
  unfold capturePgHint Volume.Routes
  cases hroute : v.map.findPgRoute v.view.info.poolId pgId with
  | none => simp
  | some route =>
    have hmap := Core.exists_mapM_ok (f := v.pgTarget pgId) (l := route.osdIds)
    have htargets := hmap.trans (forall₂_congr fun _ hmem => pgTarget_ok hroute hmem)
    by_cases hnil : route.osdIds = []
    · simp [hnil]
    cases halloc : env.targetsAllocated pgId with
    | false => simp [hnil]
    | true =>
      simp only [hnil, Bool.not_true, Bool.false_eq_true, if_false, true_and, Option.some.injEq, exists_eq_left',
        ne_eq, not_false_eq_true]
      rw [← htargets]
      cases route.osdIds.mapM (v.pgTarget pgId) <;> simp [Except.map]

theorem requestSplit_ok (hfit : estimateExtentCount v.view.info.objectSize rq.byteOffset rq.byteLength ≤
    maxObjectExtents) : (∃ r, requestSplit v rq env = .ok r) ↔
      0 < v.view.info.objectSize ∧ 0 < v.map.pgCount ∧
        ∀ es, kernelRequest v.view v.map.pgCount rq.byteOffset rq.byteLength = .ok es →
          ∀ e ∈ es, v.Routes env (v.pgOf e) := by
  have hhints : ∀ es : List Extent, (∃ hints, (es.map v.pgOf).eraseDups.mapM (capturePgHint v env) = .ok hints) ↔
      ∀ e ∈ es, v.Routes env (v.pgOf e) := fun es => by
    simp only [Core.exists_mapM_ok, List.mem_eraseDups, List.forall_mem_map, capturePgHint_ok]
  unfold requestSplit
  constructor
  · rintro ⟨r, h⟩
    split at h
    · simp at h
    · simp at h
    · next es' hk =>
      obtain ⟨hos, hpg, -⟩ := kernelRequest_ok hk
      refine ⟨hos, hpg, fun es hes => ?_⟩
      obtain rfl := Except.ok.inj (hk.symm.trans hes)
      rw [← hhints]
      cases hm : (es'.map v.pgOf).eraseDups.mapM (capturePgHint v env) with
      | error err => simp [hm, Except.map] at h
      | ok hints => exact ⟨hints, rfl⟩
  · rintro ⟨hos, hpg, hall⟩
    obtain ⟨es, hes, -⟩ := kernelRequest_tiles hos hpg hfit
    obtain ⟨hints, hm⟩ := (hhints es).mpr (hall es hes)
    exact ⟨(es, hints), by rw [hes]; simp only [hm, Except.map]⟩

/-- A request that is turned away is ended and not held. -/
def TurnedAway (r : Option (BlkStatus × Io)) : Prop :=
  ∃ status io, r = some (status, io) ∧ status ≠ .ok ∧ io.ended = [status] ∧ io.inflight = 0

theorem turnedAway_resource : TurnedAway (endAndReturn {} .resource) := ⟨_, _, rfl, by decide, rfl, rfl⟩

theorem turnedAway_ioerr {io : Io} (he : io.ended = []) (hi : io.inflight = 0) : TurnedAway (endAndReturn io .ioerr) :=
  ⟨_, _, rfl, by decide, by simp [Io.endRequest, he], hi⟩

theorem handleFlush_cases (hp : v.ready = true ∧ v.queuePaused = false) (hpass : rq.passthrough = false)
    (hop : rq.op = .flush) :
    (v.Accepts rq env ∧ ∃ io, handleFlush v env = some (.ok, io)) ∨
      (¬v.Accepts rq env ∧ TurnedAway (handleFlush v env)) := by
  unfold handleFlush Volume.Accepts
  rw [if_pos hop]
  cases hf : v.flushInProgress with
  | true => exact .inr ⟨fun h => by simp at h, turnedAway_resource⟩
  | false =>
    cases hd : env.drained with
    | true => exact .inl ⟨⟨hp.1, hp.2, hpass, rfl, rfl⟩, _, rfl⟩
    | false => exact .inr ⟨fun h => by simp at h, turnedAway_resource⟩

/-- `queue_rq` returns `BLK_STS_OK` for the requests that are accepted and
turns the others away. -/
theorem queueRq_cases (v : Volume) (rq : BlkRequest) (env : Outcomes) :
    (v.Accepts rq env ∧ ∃ io, queueRq (some v) rq env = some (.ok, io)) ∨
      (¬v.Accepts rq env ∧ TurnedAway (queueRq (some v) rq env)) := by
  rw [queueRq]
  by_cases hready : (!v.ready || v.queuePaused) = true
  · rw [if_pos hready]
    refine .inr ⟨fun h => ?_, turnedAway_resource⟩
    simp [h.1, h.2.1] at hready
  have hp : v.ready = true ∧ v.queuePaused = false := by simpa using hready
  rw [if_neg hready]
  by_cases hpass : rq.passthrough = true
  · rw [if_pos hpass]
    exact .inr ⟨fun h => by simp [h.2.2.1] at hpass, turnedAway_ioerr rfl rfl⟩
  rw [if_neg hpass]
  have hpass : rq.passthrough = false := by simpa using hpass
  by_cases hop : rq.op = .flush
  · rw [if_pos hop]
    exact handleFlush_cases hp hpass hop
  rw [if_neg hop]
  have hacc : v.Accepts rq env ↔ v.flushInProgress = false ∧ (v.readOnly = true → rq.op = .read) ∧ v.ioReady = true ∧
      requestInit v rq env = none ∧ ∃ r, requestSplit v rq env = .ok r := by
    unfold Volume.Accepts
    rw [if_neg hop, requestInit_eq_none]
    constructor
    · rintro ⟨-, -, -, hf, hro, hio, hal, hfit, hrest⟩
      exact ⟨hf, hro, hio, ⟨hfit, hal⟩, (requestSplit_ok hfit).mpr hrest⟩
    · rintro ⟨hf, hro, hio, ⟨hfit, hal⟩, hex⟩
      exact ⟨hp.1, hp.2, hpass, hf, hro, hio, hal, hfit, (requestSplit_ok hfit).mp hex⟩
  rw [hacc]
  by_cases hro : (v.readOnly && (rq.op = .write || rq.op = .writeZeroes || rq.op = .discard)) = true
  · rw [if_pos hro]
    refine .inr ⟨fun h => ?_, turnedAway_ioerr rfl rfl⟩
    simp only [Bool.and_eq_true] at hro
    simp [h.2.1 hro.1] at hro
  rw [if_neg hro]
  have hro : v.readOnly = true → rq.op = .read := fun h => by
    cases hrq : rq.op <;> simp_all
  by_cases hio : v.ioReady = true
  swap
  · rw [if_pos (by simpa using hio)]
    exact .inr ⟨fun h => hio h.2.2.1, turnedAway_resource⟩
  rw [if_neg (by simp [hio])]
  by_cases hf : v.flushInProgress = true
  · rw [if_pos hf]
    exact .inr ⟨fun h => by simp [h.1] at hf, turnedAway_resource⟩
  rw [if_neg hf]
  cases hinit : requestInit v rq env with
  | some err => exact .inr ⟨fun h => by simp at h, turnedAway_ioerr rfl rfl⟩
  | none =>
    cases hsplit : requestSplit v rq env with
    | error err => exact .inr ⟨fun h => by simp at h, turnedAway_ioerr rfl rfl⟩
    | ok r =>
      obtain ⟨io', hio', -⟩ := transportSubmit_returns env (r.2.map (·.pgId)) r.1.length ({} : Io).getIo
      refine .inl ⟨⟨by simpa using hf, hro, hio, rfl, r, rfl⟩, io', ?_⟩
      simp only [hio', Option.map_some]

end Cases

/-- The driver keeps to the ownership of blk-mq for exactly the requests
that it accepts. -/
theorem request_owned_iff (vol : Option Volume) (rq : BlkRequest) (env : Outcomes) :
    Owned vol rq env ↔ Accepted vol rq env := by
  have hno : TurnedAway (queueRq vol rq env) → ¬Owned vol rq env := by
    rintro ⟨status, io, hr, hne, he, -⟩ ⟨status', io', hr', hown⟩
    obtain ⟨rfl, rfl⟩ := Prod.mk.inj (Option.some.inj (hr.symm.trans hr'))
    have := ((hown io (.now io)).2 hne).1
    simp [he] at this
  cases vol with
  | none =>
    refine iff_of_false (hno turnedAway_resource) fun ⟨v, h, _⟩ => by simp at h
  | some v =>
    have hacc : Accepted (some v) rq env ↔ v.Accepts rq env :=
      ⟨fun ⟨w, hw, h⟩ => Option.some.inj hw ▸ h, fun h => ⟨v, rfl, h⟩⟩
    rw [hacc]
    rcases queueRq_cases v rq env with ⟨h, io, hr⟩ | ⟨h, hr⟩
    · exact iff_of_true ⟨.ok, io, hr, fun io' _ => ⟨fun _ => rfl, fun hne => absurd rfl hne⟩⟩ h
    · exact iff_of_false (hno hr) h

/-- A read of one sector of an image of 8 MiB whose queue is paused:
`queue_rq` ends it and asks blk-mq to queue it again. -/
theorem paused_request_ended_and_requeued :
    (queueRq (some ⟨true, true, true, false, false, ⟨[97], ⟨1, 4096, 4194304, 8388608⟩⟩, ⟨1, 1, 1, 1, 0, [], []⟩⟩)
      ⟨false, .read, 0, 512⟩ ⟨true, true, fun _ => true, none, fun _ => none, 1, fun _ => true⟩).map
        (fun r => (r.1, r.2.ended)) = some (.resource, [.resource]) := by
  decide +kernel

end Fastblock.L5
