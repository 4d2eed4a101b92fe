import Mathlib.Data.List.Basic

/-!
# The dispatch window of a volume

The driver sends at most a window of objects of a request at once. The
controller of the window (kfastblock/src/scheduler.c, scheduler.h) halves
it after a retry or a failed dispatch, lets it grow by one after as many
successes as it is wide, and with the policy `pressure` narrows each
sample further while many requests are in flight and for a while after a
failure. `init` takes any windows, also a maximum below the minimum.

Every call runs under the spinlock of the controller, so a run is a list
of calls. The clock is an input of each call that reads it, and
`msecs_to_jiffies` is any function. Calls without a controller do nothing
and are left out, as are the getters and the name of a policy.

`windows_bounded`: whatever calls were made, the current window is between
the minimum and the base window, and so is what a sample returns between
the minimum and the maximum.
-/
namespace Fastblock.L5.Scheduler

/-- `kfastblock_scheduler_policy`. -/
inductive Policy
  | static
  | adaptive
  | pressure
  deriving DecidableEq

/-- `kfastblock_scheduler_controller`. mirrors scheduler.h:26-51 -/
structure Controller where
  baseWindow : UInt32
  currentWindow : UInt32
  minWindow : UInt32
  maxWindow : UInt32
  pressureInflightLimit : UInt32
  cooldownMs : UInt32 := 250
  consecutiveSuccesses : UInt32 := 0
  shrinkEvents : UInt32 := 0
  growEvents : UInt32 := 0
  retryEvents : UInt32 := 0
  dispatchFailures : UInt32 := 0
  sampleEvents : UInt32 := 0
  pressureLimitedSamples : UInt32 := 0
  cooldownLimitedSamples : UInt32 := 0
  cooldownEvents : UInt32 := 0
  lastSampleInflightIos : UInt32 := 0
  lastSampleRequestObjects : UInt32 := 0
  lastSampleControllerWindow : UInt32
  lastSamplePressureWindow : UInt32
  lastSampleEffectiveWindow : UInt32
  cooldownUntilJiffies : UInt64 := 0
  policy : Policy := .adaptive
  dynamicEnabled : Bool := true

/-- `kfastblock_scheduler_sample`. -/
structure Sample where
  inflightIos : UInt32
  requestObjects : UInt32
  baseWindow : UInt32
  controllerWindow : UInt32
  pressureWindow : UInt32
  effectiveWindow : UInt32
  cooldownActive : Bool
  policy : Policy

/-- `x ? x : other` -/
def orElse (x other : UInt32) : UInt32 := if x = 0 then other else x

/-- mirrors scheduler.c:8-22 -/
def clampWindow (window minWindow maxWindow : UInt32) : UInt32 :=
  let minWindow := orElse minWindow 1
  let maxWindow := orElse maxWindow minWindow
  let maxWindow := if maxWindow < minWindow then minWindow else maxWindow
  if window < minWindow then minWindow
  else if maxWindow < window then maxWindow
  else window

/-- Of any number the caller gives. mirrors scheduler.c:39-50 -/
def clampPolicy (policy : UInt32) : Policy :=
  if policy = 0 then .static else if policy = 2 then .pressure else .adaptive

/-- mirrors scheduler.c:117-152 -/
def init (baseWindow minWindow maxWindow : UInt32) : Controller :=
  let minWindow := orElse minWindow 1
  let maxWindow := orElse maxWindow minWindow
  let baseWindow := clampWindow (orElse baseWindow minWindow) minWindow maxWindow
  { baseWindow, currentWindow := baseWindow, minWindow, maxWindow,
    pressureInflightLimit := max (baseWindow * 2) minWindow,
    lastSampleControllerWindow := baseWindow, lastSamplePressureWindow := baseWindow,
      lastSampleEffectiveWindow := baseWindow }

namespace Controller

variable (msecsToJiffies : UInt32 → UInt64) (c : Controller)

/-- `time_before` is the sign of the difference. mirrors
scheduler.c:52-57 -/
def isCooldownActive (jiffies : UInt64) : Bool := c.cooldownMs ≠ 0 ∧ (jiffies - c.cooldownUntilJiffies).toInt64 < 0

/-- mirrors scheduler.c:59-70 -/
def activateCooldown (jiffies : UInt64) : Controller :=
  if c.cooldownMs = 0 ∨ c.policy ≠ .pressure ∨ ¬ c.dynamicEnabled then c
  else { c with
    cooldownUntilJiffies := jiffies + msecsToJiffies c.cooldownMs
    cooldownEvents := c.cooldownEvents + 1 }

/-- The narrowed window, and whether requests in flight and the cool-down
narrowed it. mirrors scheduler.c:72-115 -/
def limitForPressure (window inflightIos : UInt32) (cooldownActive : Bool) : UInt32 × Bool × Bool :=
  let limited := clampWindow (orElse window 1) c.minWindow c.maxWindow
  let overLimit := inflightIos - c.pressureInflightLimit
  let reduced := if limited ≤ overLimit then c.minWindow else max (limited - overLimit) c.minWindow
  let pressureLimited : Bool := c.pressureInflightLimit ≠ 0 ∧ c.pressureInflightLimit < inflightIos ∧ reduced < limited
  let limited := if pressureLimited then reduced else limited
  let cooled := max (limited / 2) c.minWindow
  let cooldownLimited : Bool := cooldownActive ∧ c.minWindow < limited ∧ cooled < limited
  let limited := if cooldownLimited then cooled else limited
  (clampWindow limited c.minWindow c.maxWindow, pressureLimited, cooldownLimited)

/-- mirrors scheduler.c:154-172 -/
def setBaseWindow (baseWindow : UInt32) : Controller :=
  let baseWindow := clampWindow (orElse baseWindow c.minWindow) c.minWindow c.maxWindow
  { c with baseWindow, currentWindow := clampWindow c.currentWindow c.minWindow baseWindow, consecutiveSuccesses := 0 }

/-- What a controller does that stops adapting its window. -/
def rest : Controller := { c with currentWindow := c.baseWindow, consecutiveSuccesses := 0, cooldownUntilJiffies := 0 }

/-- mirrors scheduler.c:174-191 -/
def setPolicy (policy : UInt32) : Controller :=
  let c := { c with policy := clampPolicy policy }
  if c.policy = .static then c.rest else c

/-- mirrors scheduler.c:193-205 -/
def setPressureInflightLimit (inflightLimit : UInt32) : Controller := { c with pressureInflightLimit := inflightLimit }

/-- mirrors scheduler.c:207-221 -/
def setCooldownMs (cooldownMs : UInt32) : Controller :=
  { c with cooldownMs, cooldownUntilJiffies := if cooldownMs = 0 then 0 else c.cooldownUntilJiffies }

/-- mirrors scheduler.c:223-240 -/
def setDynamicEnabled (enabled : Bool) : Controller :=
  let c := { c with dynamicEnabled := enabled }
  if enabled then c else c.rest

/-- mirrors scheduler.c:242-301 -/
def sampleWindow (inflightIos requestObjects : UInt32) (jiffies : UInt64) : UInt32 × Sample × Controller :=
  let window := if c.dynamicEnabled then c.currentWindow else c.baseWindow
  let policy := if c.dynamicEnabled then c.policy else .static
  let cooldownActive := decide (policy = .pressure) && c.isCooldownActive jiffies
  let (pressureWindow, pressureLimited, cooldownLimited) :=
    if policy = .pressure then c.limitForPressure window inflightIos cooldownActive else (window, false, false)
  let effectiveWindow := orElse pressureWindow 1
  let effectiveWindow := if requestObjects = 0 then effectiveWindow else min effectiveWindow requestObjects
  let effectiveWindow := clampWindow effectiveWindow c.minWindow c.maxWindow
  (orElse effectiveWindow 1,
    ⟨inflightIos, requestObjects, c.baseWindow, window, pressureWindow, effectiveWindow, cooldownActive, policy⟩,
    { c with
      sampleEvents := c.sampleEvents + 1
      pressureLimitedSamples := c.pressureLimitedSamples + if pressureLimited then 1 else 0
      cooldownLimitedSamples := c.cooldownLimitedSamples + if cooldownLimited then 1 else 0
      lastSampleInflightIos := inflightIos
      lastSampleRequestObjects := requestObjects
      lastSampleControllerWindow := window
      lastSamplePressureWindow := pressureWindow
      lastSampleEffectiveWindow := effectiveWindow })

/-- mirrors scheduler.c:303-330 -/
def noteSuccess : Controller :=
  if ¬ c.dynamicEnabled ∨ c.policy = .static ∨ c.baseWindow ≤ c.currentWindow then { c with consecutiveSuccesses := 0 }
  else
    let c := { c with consecutiveSuccesses := c.consecutiveSuccesses + 1 }
    if max c.currentWindow 1 ≤ c.consecutiveSuccesses then
      { c with
        currentWindow := min (c.currentWindow + 1) c.baseWindow
        growEvents := c.growEvents + 1
        consecutiveSuccesses := 0 }
    else c

/-- What follows a retry or a failed dispatch. mirrors scheduler.c:341-358,
371-387 -/
def shrink (jiffies : UInt64) : Controller :=
  let c := { c with consecutiveSuccesses := 0 }.activateCooldown msecsToJiffies jiffies
  if ¬ c.dynamicEnabled ∨ c.policy = .static ∨ c.currentWindow ≤ c.minWindow then c
  else
    let nextWindow := max (c.currentWindow / 2) c.minWindow
    if nextWindow < c.currentWindow then
      { c with currentWindow := nextWindow, shrinkEvents := c.shrinkEvents + 1 }
    else c

/-- mirrors scheduler.c:332-359 -/
def noteRetry (jiffies : UInt64) : Controller :=
  { c with retryEvents := c.retryEvents + 1 }.shrink msecsToJiffies jiffies

/-- mirrors scheduler.c:361-388 -/
def noteDispatchFailure (jiffies : UInt64) : Controller :=
  { c with dispatchFailures := c.dispatchFailures + 1 }.shrink msecsToJiffies jiffies

end Controller

/-- The calls, each with what it is given and the clock if it reads it. -/
inductive Call
  | init (baseWindow minWindow maxWindow : UInt32)
  | setBaseWindow (baseWindow : UInt32)
  | setPolicy (policy : UInt32)
  | setPressureInflightLimit (inflightLimit : UInt32)
  | setCooldownMs (cooldownMs : UInt32)
  | setDynamicEnabled (enabled : Bool)
  | sampleWindow (inflightIos requestObjects : UInt32) (jiffies : UInt64)
  | noteSuccess
  | noteRetry (jiffies : UInt64)
  | noteDispatchFailure (jiffies : UInt64)

variable (msecsToJiffies : UInt32 → UInt64)

def call (c : Controller) : Call → Controller
  | .init base min max => init base min max
  | .setBaseWindow base => c.setBaseWindow base
  | .setPolicy policy => c.setPolicy policy
  | .setPressureInflightLimit limit => c.setPressureInflightLimit limit
  | .setCooldownMs ms => c.setCooldownMs ms
  | .setDynamicEnabled enabled => c.setDynamicEnabled enabled
  | .sampleWindow inflight objects jiffies => (c.sampleWindow inflight objects jiffies).2.2
  | .noteSuccess => c.noteSuccess
  | .noteRetry jiffies => c.noteRetry msecsToJiffies jiffies
  | .noteDispatchFailure jiffies => c.noteDispatchFailure msecsToJiffies jiffies

/-- The controller after the calls of a volume. -/
def run (c : Controller) (calls : List Call) : Controller := calls.foldl (call msecsToJiffies) c

/-! ## Windows as numbers -/

theorem orElse_of_pos {x : UInt32} (h : 1 ≤ x.toNat) (other : UInt32) : orElse x other = x := by
  refine if_neg fun hx => ?_
  simp [hx] at h

theorem orElse_pos {x other : UInt32} (h : 1 ≤ other.toNat) : 1 ≤ (orElse x other).toNat := by
  unfold orElse
  split
  · exact h
  · next hx =>
    have : x.toNat ≠ 0 := fun h0 => hx (UInt32.toNat_inj.mp h0)
    omega

/-- The window is moved into the range from the minimum to the larger of the
bounds. -/
theorem clampWindow_toNat {minWindow : UInt32} (h : 1 ≤ minWindow.toNat) (window maxWindow : UInt32) :
    (clampWindow window minWindow maxWindow).toNat =
      max minWindow.toNat (min window.toNat (max minWindow.toNat maxWindow.toNat)) := by
  have hmax : (orElse maxWindow minWindow).toNat = maxWindow.toNat ∨
      maxWindow.toNat = 0 ∧ (orElse maxWindow minWindow).toNat = minWindow.toNat := by
    unfold orElse
    split
    · next h0 => exact .inr ⟨by simp [h0], rfl⟩
    · exact .inl rfl
  simp only [clampWindow, orElse_of_pos h, UInt32.lt_iff_toNat_lt]
  split
  · omega
  · split <;> split <;> omega

/-! ## What every call keeps -/

/-- The windows of a controller, as numbers. -/
structure Bounded (c : Controller) : Prop where
  pos : 1 ≤ c.minWindow.toNat
  low : c.minWindow.toNat ≤ c.currentWindow.toNat
  high : c.currentWindow.toNat ≤ c.baseWindow.toNat
  base : c.baseWindow.toNat ≤ max c.minWindow.toNat c.maxWindow.toNat

/-- A window within the bounds may become the current one. -/
theorem Bounded.withWindow {c c' : Controller} (h : Bounded c) (hmin : c'.minWindow = c.minWindow)
    (hmax : c'.maxWindow = c.maxWindow) (hbase : c'.baseWindow = c.baseWindow)
    (hlow : c.minWindow.toNat ≤ c'.currentWindow.toNat) (hhigh : c'.currentWindow.toNat ≤ c.baseWindow.toNat) :
    Bounded c' where
  pos := hmin ▸ h.pos
  low := hmin ▸ hlow
  high := hbase ▸ hhigh
  base := by
    rw [hmin, hmax, hbase]
    exact h.base

/-- A call that changes none of the windows. -/
theorem Bounded.same {c c' : Controller} (h : Bounded c) (hmin : c'.minWindow = c.minWindow)
    (hmax : c'.maxWindow = c.maxWindow) (hbase : c'.baseWindow = c.baseWindow)
    (hcur : c'.currentWindow = c.currentWindow) : Bounded c' :=
  h.withWindow hmin hmax hbase (hcur ▸ h.low) (hcur ▸ h.high)

theorem bounded_init (baseWindow minWindow maxWindow : UInt32) : Bounded (init baseWindow minWindow maxWindow) := by
  have hpos : 1 ≤ (orElse minWindow 1).toNat := orElse_pos (by simp)
  refine ⟨hpos, ?_, Nat.le_refl _, ?_⟩
  all_goals
    simp only [init, clampWindow_toNat hpos]
    omega

namespace Bounded

variable {c : Controller} (h : Bounded c)
include h

theorem setBaseWindow (baseWindow : UInt32) : Bounded (c.setBaseWindow baseWindow) := by
  refine ⟨h.pos, ?_, ?_, ?_⟩
  all_goals
    simp only [Controller.setBaseWindow, clampWindow_toNat h.pos]
    omega

theorem rest : Bounded c.rest := h.withWindow rfl rfl rfl (Nat.le_trans h.low h.high) (Nat.le_refl _)

theorem setPolicy (policy : UInt32) : Bounded (c.setPolicy policy) := by
  have h' : Bounded { c with policy := clampPolicy policy } := h.same rfl rfl rfl rfl
  unfold Controller.setPolicy
  dsimp only
  split
  · exact h'.rest
  · exact h'

theorem setDynamicEnabled (enabled : Bool) : Bounded (c.setDynamicEnabled enabled) := by
  have h' : Bounded { c with dynamicEnabled := enabled } := h.same rfl rfl rfl rfl
  unfold Controller.setDynamicEnabled
  dsimp only
  split
  · exact h'
  · exact h'.rest

/-- The window grows only below the base window, so it does not wrap. -/
theorem noteSuccess : Bounded c.noteSuccess := by
  unfold Controller.noteSuccess
  split
  · exact h.same rfl rfl rfl rfl
  · next hgrow =>
    have hlt : c.currentWindow.toNat < c.baseWindow.toNat := by
      simp only [not_or, UInt32.le_iff_toNat_le] at hgrow
      omega
    have hsucc : (c.currentWindow + 1).toNat = c.currentWindow.toNat + 1 := by
      have := c.baseWindow.toNat_lt
      rw [UInt32.toNat_add, UInt32.toNat_one]
      omega
    have := h.low
    dsimp only
    split
    · refine h.withWindow rfl rfl rfl ?_ ?_
      all_goals
        dsimp only
        rw [UInt32.toNat_min, hsucc]
        omega
    · exact h.same rfl rfl rfl rfl

theorem activateCooldown (jiffies : UInt64) : Bounded (c.activateCooldown msecsToJiffies jiffies) := by
  unfold Controller.activateCooldown
  split
  · exact h
  · exact h.same rfl rfl rfl rfl

theorem shrink (jiffies : UInt64) : Bounded (c.shrink msecsToJiffies jiffies) := by
  have h' : Bounded { c with consecutiveSuccesses := 0 } := h.same rfl rfl rfl rfl
  unfold Controller.shrink
  dsimp only
  generalize hc : Controller.activateCooldown _ _ _ = d
  have hd : Bounded d := hc ▸ h'.activateCooldown msecsToJiffies jiffies
  split
  · exact hd
  · split
    · next hlt =>
      rw [UInt32.lt_iff_toNat_lt] at hlt
      have hhigh := hd.high
      refine hd.withWindow rfl rfl rfl ?_ (by dsimp only; omega)
      dsimp only
      rw [UInt32.toNat_max]
      exact Nat.le_max_right _ _
    · exact hd

theorem call (a : Call) : Bounded (call msecsToJiffies c a) := by
  cases a with
  | init base min max => exact bounded_init base min max
  | setBaseWindow base => exact h.setBaseWindow base
  | setPolicy policy => exact h.setPolicy policy
  | setPressureInflightLimit limit => exact h.same rfl rfl rfl rfl
  | setCooldownMs ms => exact h.same rfl rfl rfl rfl
  | setDynamicEnabled enabled => exact h.setDynamicEnabled enabled
  | sampleWindow inflight objects jiffies => exact h.same rfl rfl rfl rfl
  | noteSuccess => exact h.noteSuccess
  | noteRetry jiffies =>
    exact shrink (c := { c with retryEvents := c.retryEvents + 1 }) msecsToJiffies (h.same rfl rfl rfl rfl) jiffies
  | noteDispatchFailure jiffies =>
    exact shrink (c := { c with dispatchFailures := c.dispatchFailures + 1 }) msecsToJiffies
      (h.same rfl rfl rfl rfl) jiffies

theorem run (calls : List Call) : Bounded (run msecsToJiffies c calls) := by
  induction calls generalizing c with
  | nil => exact h
  | cons a calls ih => exact ih (h.call msecsToJiffies a)

/-- A sample is clamped last, whatever the policy made of the window. -/
theorem sampleWindow (inflight objects : UInt32) (jiffies : UInt64) :
    c.minWindow.toNat ≤ (c.sampleWindow inflight objects jiffies).1.toNat ∧
      (c.sampleWindow inflight objects jiffies).1.toNat ≤ max c.minWindow.toNat c.maxWindow.toNat := by
  have hclamp : ∀ window, c.minWindow.toNat ≤ (clampWindow window c.minWindow c.maxWindow).toNat ∧
      (clampWindow window c.minWindow c.maxWindow).toNat ≤ max c.minWindow.toNat c.maxWindow.toNat := fun window => by
    rw [clampWindow_toNat h.pos]
    omega
  unfold Controller.sampleWindow
  dsimp only
  rw [orElse_of_pos (Nat.le_trans h.pos (hclamp _).1)]
  exact hclamp _

end Bounded

/-- **Window bounds.** Whatever calls follow an `init` with any windows,
the current window is between the minimum and the base window, the base
window is not above the bounds of `init`, and a sample is within them. -/
theorem windows_bounded (baseWindow minWindow maxWindow : UInt32) (calls : List Call) :
    let c := run msecsToJiffies (init baseWindow minWindow maxWindow) calls
    (1 ≤ c.minWindow ∧ c.minWindow ≤ c.currentWindow ∧ c.currentWindow ≤ c.baseWindow ∧
      c.baseWindow ≤ max c.minWindow c.maxWindow) ∧
    ∀ inflight objects jiffies, c.minWindow ≤ (c.sampleWindow inflight objects jiffies).1 ∧
      (c.sampleWindow inflight objects jiffies).1 ≤ max c.minWindow c.maxWindow := by
  intro c
  have hc : Bounded c := (bounded_init baseWindow minWindow maxWindow).run msecsToJiffies calls
  simp only [UInt32.le_iff_toNat_le, UInt32.toNat_max]
  exact ⟨⟨hc.pos, hc.low, hc.high, hc.base⟩, hc.sampleWindow⟩

end Fastblock.L5.Scheduler
