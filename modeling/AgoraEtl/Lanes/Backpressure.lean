import Mathlib.Algebra.Order.Ring.Rat
import Mathlib.Data.Int.Cast.Lemmas

/-!
# Adaptive backpressure

The controller watches how long the flushes of the writer and the saves of the checkpoint store took
since it looked last, and moves the limit of pending records by a step.  The limits come from the
configuration in another place than the steps; what the two have in common is `Bounded`.
-/

namespace AgoraEtl

/-- `Backpressure`. -/
structure Backpressure where
  minBufferSize : ℤ := 1
  maxBufferSize : Option ℤ := none
  scaleUpStep : ℤ := 1
  scaleDownStep : ℤ := 1
  writerSlowMs : ℚ := 25
  checkpointSlowMs : ℚ := 10

/-- What the controller reads and counts of the runtime metrics. -/
structure RuntimeMetrics where
  writerFlushCount : ℤ := 0
  writerFlushTimeMs : ℚ := 0
  checkpointSaveCount : ℤ := 0
  checkpointSaveTimeMs : ℚ := 0
  adaptiveBackpressureScaleDownCount : ℕ := 0
  adaptiveBackpressureScaleUpCount : ℕ := 0

structure AdaptiveBackpressureController where
  currentLimit : ℤ
  minLimit : ℤ
  maxLimit : ℤ
  scaleUpStep : ℤ
  scaleDownStep : ℤ
  writerSlowMs : ℚ
  checkpointSlowMs : ℚ
  lastWriterFlushCount : ℤ := 0
  lastWriterFlushTimeMs : ℚ := 0
  lastCheckpointSaveCount : ℤ := 0
  lastCheckpointSaveTimeMs : ℚ := 0

/-- `/`; nothing if it raises `ZeroDivisionError`. -/
def truediv (a b : ℚ) : Option ℚ := if b = 0 then none else some (a / b)

theorem truediv_of_ne {a b : ℚ} (h : b ≠ 0) : truediv a b = some (a / b) := if_neg h

namespace AdaptiveBackpressureController

/-- The average over what was counted since the last look, and zero if nothing was. -/
def average (time : ℚ) (count : ℤ) : Option ℚ :=
  if 0 < count then truediv time count else some 0

/-- A quarter of the threshold, and zero if there is none. -/
def fastThreshold (slowMs : ℚ) : Option ℚ := if 0 < slowMs then truediv slowMs 4 else some 0

/-- The counters as they are now. -/
def remember (c : AdaptiveBackpressureController) (metrics : RuntimeMetrics) :
    AdaptiveBackpressureController :=
  { c with
    lastWriterFlushCount := metrics.writerFlushCount
    lastWriterFlushTimeMs := metrics.writerFlushTimeMs
    lastCheckpointSaveCount := metrics.checkpointSaveCount
    lastCheckpointSaveTimeMs := metrics.checkpointSaveTimeMs }

def scaleDown (c : AdaptiveBackpressureController) (metrics : RuntimeMetrics) :
    AdaptiveBackpressureController × RuntimeMetrics :=
  let nextLimit := max c.minLimit (c.currentLimit - c.scaleDownStep)
  if nextLimit < c.currentLimit then
    ({ c with currentLimit := nextLimit },
      { metrics with
        adaptiveBackpressureScaleDownCount := metrics.adaptiveBackpressureScaleDownCount + 1 })
  else (c, metrics)

def scaleUp (c : AdaptiveBackpressureController) (metrics : RuntimeMetrics) :
    AdaptiveBackpressureController × RuntimeMetrics :=
  let nextLimit := min c.maxLimit (c.currentLimit + c.scaleUpStep)
  if c.currentLimit < nextLimit then
    ({ c with currentLimit := nextLimit },
      { metrics with
        adaptiveBackpressureScaleUpCount := metrics.adaptiveBackpressureScaleUpCount + 1 })
  else (c, metrics)

/-- `observe`; nothing if a division raises. -/
def observe (c : AdaptiveBackpressureController) (metrics : RuntimeMetrics) (pendingCount : ℤ) :
    Option (AdaptiveBackpressureController × RuntimeMetrics) := do
  let writerFlushDelta := metrics.writerFlushCount - c.lastWriterFlushCount
  let checkpointSaveDelta := metrics.checkpointSaveCount - c.lastCheckpointSaveCount
  let writerTimeDelta := metrics.writerFlushTimeMs - c.lastWriterFlushTimeMs
  let checkpointTimeDelta := metrics.checkpointSaveTimeMs - c.lastCheckpointSaveTimeMs
  let c := c.remember metrics
  if 0 < writerFlushDelta ∨ 0 < checkpointSaveDelta then
    let writerFlushAvg ← average writerTimeDelta writerFlushDelta
    let checkpointSaveAvg ← average checkpointTimeDelta checkpointSaveDelta
    if (0 < writerFlushDelta ∧ c.writerSlowMs ≤ writerFlushAvg) ∨
        (0 < checkpointSaveDelta ∧ c.checkpointSlowMs ≤ checkpointSaveAvg) then
      pure (c.scaleDown metrics)
    else
      let writerFastThreshold ← fastThreshold c.writerSlowMs
      let checkpointFastThreshold ← fastThreshold c.checkpointSlowMs
      if c.currentLimit ≤ pendingCount ∧
          (writerFlushDelta = 0 ∨ writerFlushAvg ≤ writerFastThreshold) ∧
            (checkpointSaveDelta = 0 ∨ checkpointSaveAvg ≤ checkpointFastThreshold) then
        pure (c.scaleUp metrics)
      else pure (c, metrics)
  else pure (c, metrics)

/-- The controller after a sequence of observations. -/
def observeAll (c : AdaptiveBackpressureController) :
    List (RuntimeMetrics × ℤ) → Option AdaptiveBackpressureController
  | [] => some c
  | (metrics, pendingCount) :: observations => do
    let (c, _) ← c.observe metrics pendingCount
    c.observeAll observations

end AdaptiveBackpressureController

open AdaptiveBackpressureController in
/-- `_build_adaptive_backpressure_controller` -/
def Backpressure.buildController (bp : Backpressure) (maxBufferSize : Option ℤ) (baseLimit : ℤ) :
    AdaptiveBackpressureController :=
  let adaptiveCeiling :=
    match bp.maxBufferSize with
    | some size => size
    | none => max (max (baseLimit * 4) baseLimit) bp.minBufferSize
  let adaptiveCeiling :=
    match maxBufferSize with
    | some size => min adaptiveCeiling size
    | none => adaptiveCeiling
  let adaptiveCeiling := max 1 adaptiveCeiling
  let minLimit := min (max 1 bp.minBufferSize) adaptiveCeiling
  { currentLimit := min (max baseLimit minLimit) adaptiveCeiling
    minLimit := minLimit
    maxLimit := adaptiveCeiling
    scaleUpStep := max 1 bp.scaleUpStep
    scaleDownStep := max 1 bp.scaleDownStep
    writerSlowMs := max 0 bp.writerSlowMs
    checkpointSlowMs := max 0 bp.checkpointSlowMs }

namespace AdaptiveBackpressureController

/-! ### Bounds -/

/-- The limits of the controller are in order. -/
structure Bounded (c : AdaptiveBackpressureController) : Prop where
  one_le_min : 1 ≤ c.minLimit
  min_le_current : c.minLimit ≤ c.currentLimit
  current_le_max : c.currentLimit ≤ c.maxLimit

/-- The limits within which the other one moves are the same. -/
def SameRange (c c' : AdaptiveBackpressureController) : Prop :=
  c'.minLimit = c.minLimit ∧ c'.maxLimit = c.maxLimit

variable {c : AdaptiveBackpressureController} {metrics : RuntimeMetrics}

theorem average_isSome (time : ℚ) (count : ℤ) : ∃ q, average time count = some q := by
  unfold average
  split
  next hpos => exact ⟨_, truediv_of_ne (Int.cast_ne_zero.mpr hpos.ne')⟩
  next => exact ⟨0, rfl⟩

theorem fastThreshold_isSome (slowMs : ℚ) : ∃ q, fastThreshold slowMs = some q := by
  unfold fastThreshold
  split
  next => exact ⟨_, truediv_of_ne (by decide)⟩
  next => exact ⟨0, rfl⟩

/-- What a look can do: nothing to the limit, a step down or a step up; and no division raises. -/
theorem observe_cases (c : AdaptiveBackpressureController) (metrics : RuntimeMetrics)
    (pendingCount : ℤ) :
    c.observe metrics pendingCount = some (c.remember metrics, metrics) ∨
      c.observe metrics pendingCount = some ((c.remember metrics).scaleDown metrics) ∨
        c.observe metrics pendingCount = some ((c.remember metrics).scaleUp metrics) := by
  obtain ⟨writerFlushAvg, hwriter⟩ :=
    average_isSome (metrics.writerFlushTimeMs - c.lastWriterFlushTimeMs)
      (metrics.writerFlushCount - c.lastWriterFlushCount)
  obtain ⟨checkpointSaveAvg, hcheckpoint⟩ :=
    average_isSome (metrics.checkpointSaveTimeMs - c.lastCheckpointSaveTimeMs)
      (metrics.checkpointSaveCount - c.lastCheckpointSaveCount)
  obtain ⟨writerFast, hwriterFast⟩ := fastThreshold_isSome (c.remember metrics).writerSlowMs
  obtain ⟨checkpointFast, hcheckpointFast⟩ :=
    fastThreshold_isSome (c.remember metrics).checkpointSlowMs
  unfold observe
  simp only [hwriter, hcheckpoint, hwriterFast, hcheckpointFast, Option.bind_eq_bind,
    Option.bind_some]
  split
  next =>
    split
    next => exact .inr (.inl rfl)
    next =>
      split
      next => exact .inr (.inr rfl)
      next => exact .inl rfl
  next => exact .inl rfl

theorem Bounded.scaleDown (h : c.Bounded) (metrics : RuntimeMetrics) :
    (c.scaleDown metrics).1.Bounded ∧ c.SameRange (c.scaleDown metrics).1 := by
  unfold AdaptiveBackpressureController.scaleDown
  dsimp only
  split
  next hlt =>
    exact ⟨⟨h.one_le_min, le_max_left _ _, hlt.le.trans h.current_le_max⟩, rfl, rfl⟩
  next => exact ⟨h, rfl, rfl⟩

theorem Bounded.scaleUp (h : c.Bounded) (metrics : RuntimeMetrics) :
    (c.scaleUp metrics).1.Bounded ∧ c.SameRange (c.scaleUp metrics).1 := by
  unfold AdaptiveBackpressureController.scaleUp
  dsimp only
  split
  next hlt =>
    exact ⟨⟨h.one_le_min, h.min_le_current.trans hlt.le, min_le_left _ _⟩, rfl, rfl⟩
  next => exact ⟨h, rfl, rfl⟩

/-- A look at the metrics keeps the bounds. -/
theorem Bounded.observe (h : c.Bounded) (metrics : RuntimeMetrics) (pendingCount : ℤ) :
    ∃ c' metrics', c.observe metrics pendingCount = some (c', metrics') ∧ c'.Bounded ∧
      c.SameRange c' := by
  have hremember : (c.remember metrics).Bounded :=
    ⟨h.one_le_min, h.min_le_current, h.current_le_max⟩
  rcases observe_cases c metrics pendingCount with hsame | hdown | hup
  · exact ⟨_, _, hsame, hremember, rfl, rfl⟩
  · exact ⟨_, _, hdown, hremember.scaleDown metrics⟩
  · exact ⟨_, _, hup, hremember.scaleUp metrics⟩

/-- Any sequence of looks keeps the bounds. -/
theorem Bounded.observeAll (h : c.Bounded) (observations : List (RuntimeMetrics × ℤ)) :
    ∃ c', c.observeAll observations = some c' ∧ c'.Bounded ∧ c.SameRange c' := by
  induction observations generalizing c with
  | nil => exact ⟨c, rfl, h, rfl, rfl⟩
  | cons observation observations ih =>
    obtain ⟨metrics, pendingCount⟩ := observation
    obtain ⟨c₁, metrics', hobserve, hbounded, hmin, hmax⟩ := h.observe metrics pendingCount
    obtain ⟨c₂, hrest, hbounded₂, hmin₂, hmax₂⟩ := ih hbounded
    refine ⟨c₂, ?_, hbounded₂, hmin₂.trans hmin, hmax₂.trans hmax⟩
    rw [AdaptiveBackpressureController.observeAll, hobserve]
    exact hrest

end AdaptiveBackpressureController

/-- The controller is built within its bounds. -/
theorem Backpressure.buildController_bounded (bp : Backpressure) (maxBufferSize : Option ℤ)
    (baseLimit : ℤ) : (bp.buildController maxBufferSize baseLimit).Bounded := by
  unfold Backpressure.buildController
  constructor
  · exact le_min (le_max_left _ _) (le_max_left _ _)
  · exact le_min (le_max_right _ _) (min_le_right _ _)
  · exact min_le_right _ _

/-- No limit of the controller is above the size of the buffer. -/
theorem Backpressure.buildController_maxLimit_le (bp : Backpressure) {size : ℤ} (hsize : 1 ≤ size)
    (baseLimit : ℤ) : (bp.buildController (some size) baseLimit).maxLimit ≤ size :=
  max_le hsize (min_le_right _ _)

end AgoraEtl
