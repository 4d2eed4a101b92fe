import Fastblock.L5Client.QueueRq

/-!
# The machine that finishes a request

`kfastblock_transport_complete_request` runs at the end of each object work,
`kfastblock_transport_abort_request` after a work that could not be queued
(kfastblock/src/transport.c:3260-3432). Both run the same four stages over a
request that other works change meanwhile. The loop has no bound of its own,
so it ends only if each handler moves the stage on.

The handler of the first stage does so only when it is called for an object
that is complete. An abort therefore stays in its first stage:
`finish_returns_iff`.
-/
namespace Fastblock.L5

inductive FinishStage
  | init
  | statusUpdated
  | pendingUpdated
  | finished
  deriving DecidableEq, Repr

/-- `kfastblock_transport_request_finish_ctx`. -/
structure FinishCtx where
  req : Io
  objectIndex : Nat
  ret : Option KErrno
  markSuccess : Bool
  stage : FinishStage := .init
  firstError : Bool := false
  remaining : Int := 0
  finished : Bool := false

/-- `kfastblock_transport_drop_unscheduled_pending`. -/
def Io.dropUnscheduledPending (io : Io) (remaining : Int) : Int × Io :=
  let (unscheduled, io) := io.cancelUnqueued
  if unscheduled = 0 then (remaining, io)
  else (io.pending - unscheduled, { io with pending := io.pending - unscheduled })

namespace FinishCtx

variable (queueWork : Nat → Bool) (ctx : FinishCtx)

/-- `kfastblock_transport_update_request_status_after_object`. -/
def updateRequestStatusAfterObject : FinishCtx :=
  let req := ctx.req.setObject ctx.objectIndex (if ctx.ret.isSome then .failed else .done)
  let (firstError, req) :=
    if ctx.ret.isSome then req.setFirstError ctx.ret
    else if req.status.isNone then
      let (err, req) := req.refillDispatchWindow queueWork
      req.setFirstError err
    else (ctx.firstError, req)
  { ctx with req, firstError, stage := .statusUpdated }

/-- `kfastblock_transport_advance_request_pending`. -/
def advanceRequestPending (dropUnscheduled : Bool) : FinishCtx :=
  let req := { ctx.req with pending := ctx.req.pending - 1 }
  let (remaining, req) := if dropUnscheduled then req.dropUnscheduledPending req.pending else (req.pending, req)
  { ctx with req, remaining, stage := .pendingUpdated }

/-- `kfastblock_transport_finish_request_ctx_if_idle`. -/
def finishRequestCtxIfIdle : FinishCtx :=
  { ctx with
    req := if ctx.remaining = 0 then ctx.req.finishRequestNow else ctx.req
    finished := true
    stage := .finished }

/-- `kfastblock_transport_prepare_request_finish_status`. -/
def prepareRequestFinishStatus : FinishCtx :=
  if ctx.markSuccess then ctx.updateRequestStatusAfterObject queueWork
  else { ctx with req := (ctx.req.setFirstError ctx.ret).2 }

/-- `kfastblock_transport_prepare_request_finish_pending`. -/
def prepareRequestFinishPending : FinishCtx :=
  if ctx.markSuccess then ctx.advanceRequestPending ctx.firstError
  else
    let (remaining, req) := ctx.req.dropUnscheduledPending 0
    { ctx with req, remaining, stage := .pendingUpdated }

/-- The switch of `kfastblock_transport_advance_request_finish_ctx`. -/
def advance : FinishCtx :=
  match ctx.stage with
  | .init => ctx.prepareRequestFinishStatus queueWork
  | .statusUpdated => ctx.prepareRequestFinishPending
  | .pendingUpdated => ctx.finishRequestCtxIfIdle
  | .finished => { ctx with finished := true }

/-- The context after `n` rounds of
`kfastblock_transport_run_request_finish_ctx`; in round `k` the request is
as `others k` left it. -/
def rounds (others : Nat → Io → Io) : Nat → FinishCtx
  | 0 => ctx
  | n + 1 =>
    let ctx := rounds others n
    if ctx.finished then ctx else { ctx with req := others n ctx.req }.advance queueWork

end FinishCtx

inductive FinishCall
  | complete (objectIndex : Nat) (ret : Option KErrno)
  | abort (ret : Option KErrno)
  deriving DecidableEq, Repr

/-- `kfastblock_transport_request_finish_ctx_init`. -/
def FinishCall.ctx (req : Io) : FinishCall → FinishCtx
  | .complete objectIndex ret => { req, objectIndex, ret, markSuccess := true }
  | .abort ret => { req, objectIndex := 0, ret, markSuccess := false }

/-- The call returns, and on its way it enters each stage at most once and
in their order. -/
def FinishCall.Returns (queueWork : Nat → Bool) (others : Nat → Io → Io) (req : Io) (call : FinishCall) : Prop :=
  ∃ n, ((call.ctx req).rounds queueWork others n).finished = true ∧
    ((List.range (n + 1)).map fun k => ((call.ctx req).rounds queueWork others k).stage).Sublist
      [.init, .statusUpdated, .pendingUpdated, .finished]

section

variable {queueWork : Nat → Bool} {others : Nat → Io → Io} {ctx : FinishCtx} {n : Nat}

/-- The fields of a context that decide where it goes. -/
def FinishCtx.At (ctx : FinishCtx) (markSuccess : Bool) (stage : FinishStage) (finished : Bool) : Prop :=
  ctx.markSuccess = markSuccess ∧ ctx.stage = stage ∧ ctx.finished = finished

theorem rounds_succ {b : Bool} {st : FinishStage} (h : (ctx.rounds queueWork others n).At b st false) :
    ∃ c : FinishCtx, c.At b st false ∧ ctx.rounds queueWork others (n + 1) = c.advance queueWork := by
  refine ⟨{ ctx.rounds queueWork others n with req := others n (ctx.rounds queueWork others n).req }, h, ?_⟩
  rw [FinishCtx.rounds, if_neg (by simp [h.2.2])]

/-- The status of a complete object: the stage moves on. -/
theorem advance_status {c : FinishCtx} (h : c.At true .init false) :
    (c.advance queueWork).At true .statusUpdated false := by
  obtain ⟨hm, hs, hf⟩ := h
  rw [FinishCtx.advance, hs]
  dsimp only
  rw [FinishCtx.prepareRequestFinishStatus, if_pos hm]
  exact ⟨hm, rfl, hf⟩

theorem advance_pending {c : FinishCtx} (h : c.At true .statusUpdated false) :
    (c.advance queueWork).At true .pendingUpdated false := by
  obtain ⟨hm, hs, hf⟩ := h
  rw [FinishCtx.advance, hs]
  dsimp only
  rw [FinishCtx.prepareRequestFinishPending, if_pos hm]
  exact ⟨hm, rfl, hf⟩

theorem advance_finish {c : FinishCtx} (h : c.At true .pendingUpdated false) :
    (c.advance queueWork).At true .finished true := by
  obtain ⟨hm, hs, -⟩ := h
  rw [FinishCtx.advance, hs]
  exact ⟨hm, rfl, rfl⟩

/-- The status of an abort: the stage stays. -/
theorem advance_abort {c : FinishCtx} (h : c.At false .init false) : (c.advance queueWork).At false .init false := by
  obtain ⟨hm, hs, hf⟩ := h
  rw [FinishCtx.advance, hs]
  dsimp only
  rw [FinishCtx.prepareRequestFinishStatus, if_neg (by simp [hm])]
  exact ⟨hm, hs, hf⟩

theorem rounds_abort (h : ctx.At false .init false) (n : Nat) :
    (ctx.rounds queueWork others n).At false .init false := by
  induction n with
  | zero => exact h
  | succ n ih =>
    obtain ⟨c, hc, hr⟩ := rounds_succ ih
    rw [hr]
    exact advance_abort hc

theorem not_returns_abort (req : Io) (ret : Option KErrno) :
    ¬(FinishCall.abort ret).Returns queueWork others req := by
  intro h
  obtain ⟨n, hn, -⟩ := h
  have hctx : ((FinishCall.abort ret).ctx req).At false .init false := ⟨rfl, rfl, rfl⟩
  rw [(rounds_abort hctx n).2.2] at hn
  cases hn

end

/-- Whatever the other threads do to the request, a completion goes through
the four stages and returns, and an abort does not return. -/
theorem finish_returns_iff (queueWork : Nat → Bool) (others : Nat → Io → Io) (req : Io) (call : FinishCall) :
    call.Returns queueWork others req ↔ ∃ i ret, call = .complete i ret := by
  cases call with
  | complete i ret =>
    refine iff_of_true ?_ ⟨i, ret, rfl⟩
    have h0 : (((FinishCall.complete i ret).ctx req).rounds queueWork others 0).At true .init false := ⟨rfl, rfl, rfl⟩
    obtain ⟨c0, hc0, hr0⟩ := rounds_succ h0
    have h1 := hr0 ▸ advance_status hc0
    obtain ⟨c1, hc1, hr1⟩ := rounds_succ h1
    have h2 := hr1 ▸ advance_pending hc1
    obtain ⟨c2, hc2, hr2⟩ := rounds_succ h2
    have h3 := hr2 ▸ advance_finish hc2
    refine ⟨3, h3.2.2, ?_⟩
    simp only [List.range_succ, List.range_zero, List.nil_append, List.map_append, List.map_cons, List.map_nil,
      h0.2.1, h1.2.1, h2.2.1, h3.2.1]
    exact List.Sublist.refl _
  | abort ret => exact iff_of_false (not_returns_abort req ret) (by simp)

/-- The work of the only object of a request is refused by the workqueue:
the abort that follows never returns, even if nobody else touches the
request. -/
theorem abort_request_loops :
    ¬(FinishCall.abort (some .ebusy)).Returns (fun _ => false) (fun _ req => req)
      { objects := [.queued], pending := 1 } :=
  not_returns_abort _ _

end Fastblock.L5
