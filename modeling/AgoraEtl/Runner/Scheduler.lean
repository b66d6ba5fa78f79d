import AgoraEtl.Data.Double
import Mathlib.Algebra.Order.Ring.Rat
import Mathlib.Data.List.Induction
import Mathlib.Tactic.Linarith

/-!
# The scheduler loop

`ScheduledPipelineRunner.run` runs a pipeline again and again. It counts the failures in a row,
waits after each of them for a time that the backoff policy computes from the count, and ends by
itself when the count reaches `max_consecutive_errors`.

`lawful_iff` says for which lists of run outcomes the loop obeys this law. What breaks it is the
policy: it multiplies a float by a power of two that outgrows the floats, and the error of the
conversion is raised in the handler of the failure, where nothing catches it.

Times, log lines, summaries, callbacks and the stop event are left out; floats are exact.
-/

namespace AgoraEtl.Scheduler

/-! ## Numbers -/

/-- A number of Python: an `int`, or a `float` by its value. -/
inductive Number where
  | int (n : ℤ)
  | float (q : ℚ)
  deriving DecidableEq

namespace Number

def value : Number → ℚ
  | int n => n
  | float q => q

/-- The first integer that is too large for a float. -/
def floatLimit : ℤ := Double.intLimit

/-- The conversion of an integer to a float; `none` is an `OverflowError`. -/
def floatOfInt (n : ℤ) : Option ℚ := if |n| < floatLimit then some n else none

/-- `a * n` for an integer `n`. -/
def mulInt : Number → ℤ → Option Number
  | int m, n => some (int (m * n))
  | float q, n => (floatOfInt n).map fun r => float (q * r)

/-- `min(a, b)`. -/
def min (a b : Number) : Number := if b.value < a.value then b else a

/-- `float(a)`. -/
def toFloat : Number → Option ℚ
  | int n => floatOfInt n
  | float q => some q

/-- The smaller number has the smaller value. -/
theorem value_min (a b : Number) : (a.min b).value = Min.min a.value b.value := by
  unfold min
  by_cases h : b.value < a.value
  · rw [if_pos h, min_eq_right h.le]
  · rw [if_neg h, min_eq_left (not_lt.mp h)]

/-- A number that is a float keeps its value. -/
theorem toFloat_eq_some {a : Number} {q : ℚ} (h : a.toFloat = some q) : q = a.value := by
  cases a with
  | int n =>
    obtain ⟨-, hq⟩ : |n| < floatLimit ∧ (n : ℚ) = q := by
      simpa [toFloat, floatOfInt] using h
    exact hq.symm
  | float r => exact (Option.some.inj h).symm

/-- Only an integer that is too large cannot be a float. -/
theorem toFloat_isSome {a : Number} :
    a.toFloat.isSome ↔ ∀ n : ℤ, a = int n → |n| < floatLimit := by
  cases a with
  | int n =>
    by_cases h : |n| < floatLimit <;> simp [toFloat, floatOfInt, h]
  | float q => simp [toFloat]

end Number

/-! ## The backoff policy -/

/-- `ExponentialBackoffPolicy`. -/
structure ExponentialBackoffPolicy where
  baseDelaySeconds : Number := .float 60
  maxDelaySeconds : Number := .float 600

namespace ExponentialBackoffPolicy

variable (p : ExponentialBackoffPolicy)

/-- `next_delay`. -/
def nextDelay (consecutiveErrors : ℕ) : Option ℚ :=
  if consecutiveErrors = 0 then some 0
  else do
    let delay ← p.baseDelaySeconds.mulInt (2 ^ (consecutiveErrors - 1))
    (delay.min p.maxDelaySeconds).toFloat

/-- The bounded exponential delay after so many failures in a row. -/
def delay (consecutiveErrors : ℕ) : ℚ :=
  Min.min (p.baseDelaySeconds.value * 2 ^ (consecutiveErrors - 1)) p.maxDelaySeconds.value

/-- No integer that has to become a float is too large: neither the power of two when the base is a
float, nor the smaller of the two delays. -/
structure Fits (consecutiveErrors : ℕ) : Prop where
  power : ∀ q, p.baseDelaySeconds = .float q → consecutiveErrors ≤ 1024
  base : ∀ n : ℤ, p.baseDelaySeconds = .int n →
    (n : ℚ) * 2 ^ (consecutiveErrors - 1) ≤ p.maxDelaySeconds.value →
    |n * 2 ^ (consecutiveErrors - 1)| < Number.floatLimit
  max : ∀ n : ℤ, p.maxDelaySeconds = .int n →
    (n : ℚ) < p.baseDelaySeconds.value * 2 ^ (consecutiveErrors - 1) → |n| < Number.floatLimit

variable {p} {k : ℕ}

/-- The product of the base delay and the power of two. -/
theorem mulInt_power (k : ℕ) (a : Number) :
    a.mulInt (2 ^ k) = match a with
      | .int n => some (.int (n * 2 ^ k))
      | .float q => if k < 1024 then some (.float (q * 2 ^ k)) else none := by
  cases a with
  | int n => rfl
  | float q =>
    have hpow : |(2 : ℤ) ^ k| < Number.floatLimit ↔ k < 1024 := by
      have hnonneg : (0 : ℤ) ≤ 2 ^ k := pow_nonneg (by decide) k
      rw [abs_of_nonneg hnonneg, Number.floatLimit, Double.two_pow_lt_intLimit]
    rw [Number.mulInt, Number.floatOfInt]
    dsimp only
    by_cases h : k < 1024
    · rw [if_pos (hpow.mpr h), if_pos h, Option.map_some]
      push_cast
      rfl
    · rw [if_neg (mt hpow.mp h), if_neg h, Option.map_none]

/-- After a failure the policy returns the bounded exponential delay, if it returns. -/
theorem nextDelay_eq_some {d : ℚ} (hk : k ≠ 0) (h : p.nextDelay k = some d) : d = p.delay k := by
  rw [nextDelay, if_neg hk, mulInt_power] at h
  obtain ⟨product, hproduct, hfloat⟩ := Option.bind_eq_some_iff.mp h
  have hvalue : product.value = p.baseDelaySeconds.value * 2 ^ (k - 1) := by
    cases hbase : p.baseDelaySeconds with
    | int n =>
      rw [hbase] at hproduct
      obtain rfl := Option.some.inj hproduct
      simp [Number.value]
    | float q =>
      rw [hbase] at hproduct
      dsimp only at hproduct
      split_ifs at hproduct with hsmall
      obtain rfl := Option.some.inj hproduct
      rfl
  rw [Number.toFloat_eq_some hfloat, Number.value_min, hvalue, delay]

/-- The policy returns exactly when all conversions fit. -/
theorem nextDelay_isSome (hk : k ≠ 0) : (p.nextDelay k).isSome ↔ p.Fits k := by
  rw [nextDelay, if_neg hk, mulInt_power]
  cases hbase : p.baseDelaySeconds with
  | int n =>
    have hvalue : (Number.int (n * 2 ^ (k - 1))).value = (n : ℚ) * 2 ^ (k - 1) := by
      simp [Number.value]
    change ((Number.int (n * 2 ^ (k - 1))).min p.maxDelaySeconds).toFloat.isSome ↔ _
    rw [Number.toFloat_isSome, Number.min, hvalue]
    constructor
    · intro h
      refine ⟨fun q hq => ?_, fun m hm hle => ?_, fun m hm hlt => ?_⟩
      · rw [hbase] at hq
        cases hq
      · obtain rfl : n = m := Number.int.inj (hbase.symm.trans hm)
        exact h _ (if_neg (not_lt.mpr hle))
      · rw [hbase] at hlt
        refine h m ?_
        rw [if_pos (by rwa [hm]), hm]
    · intro h m hm
      by_cases hlt : p.maxDelaySeconds.value < (n : ℚ) * 2 ^ (k - 1)
      · rw [if_pos hlt] at hm
        refine h.max m hm ?_
        rw [hm] at hlt
        rwa [hbase]
      · rw [if_neg hlt] at hm
        obtain rfl := Number.int.inj hm
        exact h.base n hbase (not_lt.mp hlt)
  | float q =>
    dsimp only
    by_cases hsmall : k - 1 < 1024
    · rw [if_pos hsmall]
      change ((Number.float (q * 2 ^ (k - 1))).min p.maxDelaySeconds).toFloat.isSome ↔ _
      rw [Number.toFloat_isSome, Number.min]
      constructor
      · intro h
        refine ⟨fun _ _ => by omega, fun m hm => ?_, fun m hm hlt => ?_⟩
        · rw [hbase] at hm
          cases hm
        · rw [hbase] at hlt
          refine h m ?_
          rw [if_pos (by rwa [hm]), hm]
      · intro h m hm
        split_ifs at hm with hlt
        refine h.max m hm ?_
        rw [hm] at hlt
        rwa [hbase]
    · rw [if_neg hsmall]
      constructor
      · intro h
        exact absurd h (by simp)
      · intro h
        have hle := h.power q hbase
        omega

end ExponentialBackoffPolicy

/-! ## The loop -/

/-- The modes of a schedule. -/
inductive Schedule where
  | interval
  | cron
  | continuous
  | once
  deriving DecidableEq

/-- `should_repeat`. -/
def Schedule.shouldRepeat (s : Schedule) : Bool := s != .once

/-- How one round of the loop goes: the pre-run hook skips the run, or the run ends. -/
inductive Outcome where
  | success
  | failure
  | leaseLost
  | skipped
  deriving DecidableEq

/-- A scheduled pipeline. -/
structure ScheduledPipeline where
  schedule : Schedule
  maxConsecutiveErrors : ℤ
  backoffPolicy : ExponentialBackoffPolicy

/-- A pipeline whose schedule repeats. -/
structure RepeatingPipeline extends ScheduledPipeline where
  repeats : schedule.shouldRepeat = true

/-- The stats of one run; `error` is `none` for a successful run. -/
structure RunRecord where
  runNumber : ℕ
  error : Option Outcome
  deriving DecidableEq

/-- Mutable scheduler state. -/
structure ScheduledPipelineState where
  runNumber : ℕ := 0
  consecutiveErrors : ℕ := 0
  history : List RunRecord := []
  running : Bool := false

/-- What the loop awaits beside the run itself. -/
inductive Wait where
  | backoff (seconds : ℚ)
  | notify (record : RunRecord)
  | untilNext
  | afterSkip
  deriving DecidableEq

/-- Whether the loop goes on, has ended by itself, or has raised. -/
inductive Status where
  | looping
  | ended
  | raised
  deriving DecidableEq

/-- The loop with what it has awaited so far. -/
structure Loop where
  state : ScheduledPipelineState
  waits : List Wait
  status : Status

namespace ScheduledPipelineState

variable (s : ScheduledPipelineState)

/-- `history.append`, of a deque with at most a hundred elements. -/
def append (record : RunRecord) : ScheduledPipelineState :=
  let history := s.history ++ [record]
  { s with history := history.drop (history.length - 100) }

/-- The number of the run is taken. -/
def start : ScheduledPipelineState := { s with runNumber := s.runNumber + 1 }

/-- The record of the current run. -/
def record (error : Option Outcome) : RunRecord := ⟨s.runNumber, error⟩

end ScheduledPipelineState

namespace ScheduledPipeline

variable (p : ScheduledPipeline)

/-- `_handle_run_failure`: the state, and the delay unless the policy raises. -/
def handleRunFailure (s : ScheduledPipelineState) : ScheduledPipelineState × Option ℚ :=
  let s := { s with consecutiveErrors := s.consecutiveErrors + 1 }
  (s, p.backoffPolicy.nextDelay s.consecutiveErrors)

/-- `_handle_run_success`. -/
def handleRunSuccess (s : ScheduledPipelineState) : ScheduledPipelineState :=
  { s with consecutiveErrors := 0 }

/-- `_run_once`: the state, what was awaited, and whether a run took place; `none` when the handler
of the failure raised. -/
def runOnce (s : ScheduledPipelineState) :
    Outcome → ScheduledPipelineState × List Wait × Option Bool
  | .skipped => (s, [], some false)
  | .success =>
    let s := handleRunSuccess s.start
    (s.append (s.record none), [.notify (s.record none)], some true)
  | .leaseLost =>
    let s := s.start
    (s.append (s.record (some .leaseLost)), [.notify (s.record (some .leaseLost))], some true)
  | .failure =>
    let (s, delay) := p.handleRunFailure s.start
    let record := s.record (some .failure)
    match delay with
    | some seconds => (s.append record, [.backoff seconds, .notify record], some true)
    | none => (s.append record, [.notify record], none)

/-- `_should_continue`. -/
def shouldContinue (s : ScheduledPipelineState) : Bool :=
  if p.schedule.shouldRepeat = false then false
  else decide ((s.consecutiveErrors : ℤ) < p.maxConsecutiveErrors)

/-- One round of the `while` loop. -/
def round (w : Loop) (outcome : Outcome) : Loop :=
  if w.status = .looping then
    match p.runOnce w.state outcome with
    | (s, waits, none) => ⟨{ s with running := false }, w.waits ++ waits, .raised⟩
    | (s, waits, some ran) =>
      if p.shouldContinue s then
        ⟨s, w.waits ++ waits ++ [if ran then .untilNext else .afterSkip], .looping⟩
      else ⟨{ s with running := false }, w.waits ++ waits, .ended⟩
  else w

/-- `run` up to the given outcomes. -/
def run (outcomes : List Outcome) : Loop :=
  outcomes.foldl p.round ⟨{ running := true }, [], .looping⟩

end ScheduledPipeline

/-! ## The law of the streak -/

/-- The number of failures in a row after one more round. -/
def nextStreak (streak : ℕ) : Outcome → ℕ
  | .success => 0
  | .failure => streak + 1
  | .leaseLost => streak
  | .skipped => streak

/-- The number of failures in a row at the end of the rounds. -/
def streak (outcomes : List Outcome) : ℕ := outcomes.foldl nextStreak 0

/-- One more outcome goes on with the streak of failures. -/
theorem streak_snoc (front : List Outcome) (outcome : Outcome) :
    streak (front ++ [outcome]) = nextStreak (streak front) outcome := by
  rw [streak, List.foldl_append]
  rfl

/-- Only a failure makes the streak longer. -/
theorem nextStreak_le {outcome : Outcome} (h : outcome ≠ .failure) (k : ℕ) :
    nextStreak k outcome ≤ k := by
  cases outcome with
  | success => exact Nat.zero_le k
  | failure => exact absurd rfl h
  | leaseLost => exact le_rfl
  | skipped => exact le_rfl

namespace RepeatingPipeline

variable (p : RepeatingPipeline)

/-- The law on every prefix of the rounds: the loop does not raise, it ends exactly after the run that
makes the streak as long as allowed, and it waits once after each failure. -/
structure Lawful (outcomes : List Outcome) : Prop where
  noRaise : ∀ front, front <+: outcomes → (p.run front).status ≠ .raised
  ends : ∀ front outcome, front ++ [outcome] <+: outcomes → (p.run front).status = .looping →
    ((p.run (front ++ [outcome])).status = .ended ↔
      outcome = .failure ∧ (streak (front ++ [outcome]) : ℤ) = p.maxConsecutiveErrors)
  waits : ∀ front, front ++ [.failure] <+: outcomes → (p.run front).status = .looping →
    ∃ rest, (p.run (front ++ [.failure])).waits = (p.run front).waits ++
        .backoff (p.backoffPolicy.delay (streak (front ++ [.failure]))) :: rest ∧
      ∀ seconds, Wait.backoff seconds ∉ rest

/-- The streak has stayed below the allowed length. -/
def Below (front : List Outcome) : Prop :=
  ∀ earlier, earlier <+: front → (streak earlier : ℤ) < p.maxConsecutiveErrors

variable {p} {front outcomes : List Outcome} {outcome : Outcome}

/-- One more outcome is one more round. -/
theorem run_snoc : p.run (front ++ [outcome]) = p.round (p.run front) outcome := by
  rw [ScheduledPipeline.run, List.foldl_append]
  rfl

/-- What one round does to the count of failures, and when its failure handler raises. -/
theorem runOnce_spec (s : ScheduledPipelineState) (outcome : Outcome) :
    (p.runOnce s outcome).1.consecutiveErrors = nextStreak s.consecutiveErrors outcome ∧
    ((p.runOnce s outcome).2.2 = none ↔
      outcome = .failure ∧ ¬ p.backoffPolicy.Fits (s.consecutiveErrors + 1)) := by
  cases outcome with
  | success => exact ⟨rfl, by simp [ScheduledPipeline.runOnce]⟩
  | leaseLost => exact ⟨rfl, by simp [ScheduledPipeline.runOnce]⟩
  | skipped => exact ⟨rfl, by simp [ScheduledPipeline.runOnce]⟩
  | failure =>
    have hfits := ExponentialBackoffPolicy.nextDelay_isSome (p := p.backoffPolicy)
      (Nat.succ_ne_zero s.consecutiveErrors)
    simp only [ScheduledPipeline.runOnce, ScheduledPipeline.handleRunFailure,
      ScheduledPipelineState.start]
    cases hdelay : p.backoffPolicy.nextDelay (s.consecutiveErrors + 1) with
    | some seconds =>
      rw [hdelay] at hfits
      exact ⟨rfl, by simpa using hfits⟩
    | none =>
      rw [hdelay] at hfits
      exact ⟨rfl, by simpa using hfits⟩

/-- The loop goes on while the errors are below their maximum. -/
theorem shouldContinue_iff {s : ScheduledPipelineState} :
    p.shouldContinue s = true ↔ (s.consecutiveErrors : ℤ) < p.maxConsecutiveErrors := by
  rw [ScheduledPipeline.shouldContinue, if_neg (by simp [p.repeats]), decide_eq_true_iff]

/-- One round of a loop that goes on. -/
theorem round_spec (outcome : Outcome) {w : Loop} (h : w.status = .looping) :
    (p.round w outcome).state.consecutiveErrors =
      nextStreak w.state.consecutiveErrors outcome ∧
    ((p.round w outcome).status = .raised ↔
      outcome = .failure ∧ ¬ p.backoffPolicy.Fits (w.state.consecutiveErrors + 1)) ∧
    ((p.round w outcome).status = .looping ↔
      (nextStreak w.state.consecutiveErrors outcome : ℤ) < p.maxConsecutiveErrors ∧
        (outcome = .failure → p.backoffPolicy.Fits (w.state.consecutiveErrors + 1))) := by
  obtain ⟨hcount, hraises⟩ := runOnce_spec (p := p) w.state outcome
  rw [ScheduledPipeline.round, if_pos h]
  generalize hround : p.runOnce w.state outcome = result at hcount hraises ⊢
  obtain ⟨s, waits, ran⟩ := result
  dsimp only at hcount hraises
  cases ran with
  | none =>
    have hraised := hraises.mp rfl
    refine ⟨hcount, ⟨fun _ => hraised, fun _ => rfl⟩, ⟨fun hloop => ?_, fun hloop => ?_⟩⟩
    · cases hloop
    · exact absurd (hloop.2 hraised.1) hraised.2
  | some ran =>
    have hfits : outcome = .failure → p.backoffPolicy.Fits (w.state.consecutiveErrors + 1) := by
      intro hfailure
      by_contra hnot
      exact absurd (hraises.mpr ⟨hfailure, hnot⟩) (by simp)
    have hnoraise : ¬ (outcome = .failure ∧
        ¬ p.backoffPolicy.Fits (w.state.consecutiveErrors + 1)) := fun hr => hr.2 (hfits hr.1)
    rw [← hcount]
    by_cases hcontinue : p.shouldContinue s = true
    · simp only [if_pos hcontinue]
      exact ⟨trivial, by simpa using hnoraise, by simpa using ⟨shouldContinue_iff.mp hcontinue, hfits⟩⟩
    · simp only [if_neg hcontinue]
      have hlimit := mt shouldContinue_iff.mpr hcontinue
      exact ⟨trivial, by simpa using hnoraise, by simpa using fun hlt => absurd hlt hlimit⟩

/-- A loop that has stopped stays as it is. -/
theorem round_stopped {w : Loop} (h : w.status ≠ .looping) : p.round w outcome = w := if_neg h

/-- A failure whose delay fits is followed by one wait for this delay. -/
theorem round_waits {w : Loop} (h : w.status = .looping)
    (hfits : p.backoffPolicy.Fits (w.state.consecutiveErrors + 1)) :
    ∃ rest, (p.round w .failure).waits = w.waits ++
        .backoff (p.backoffPolicy.delay (w.state.consecutiveErrors + 1)) :: rest ∧
      ∀ seconds, Wait.backoff seconds ∉ rest := by
  obtain ⟨seconds, hseconds⟩ := Option.isSome_iff_exists.mp
    ((ExponentialBackoffPolicy.nextDelay_isSome (Nat.succ_ne_zero _)).mpr hfits)
  obtain rfl := ExponentialBackoffPolicy.nextDelay_eq_some (Nat.succ_ne_zero _) hseconds
  rw [ScheduledPipeline.round, if_pos h]
  simp only [ScheduledPipeline.runOnce, ScheduledPipeline.handleRunFailure,
    ScheduledPipelineState.start, hseconds]
  split_ifs with hcontinue
  · refine ⟨[_, .untilNext], List.append_assoc .., ?_⟩
    simp
  · refine ⟨[_], rfl, ?_⟩
    simp

/-- While the loop goes on, the counter is the streak, and the streak is below its limit after every
round. -/
theorem looping_spec (h : (p.run front).status = .looping) :
    (p.run front).state.consecutiveErrors = streak front ∧
    ∀ earlier last, earlier ++ [last] <+: front →
      (streak (earlier ++ [last]) : ℤ) < p.maxConsecutiveErrors := by
  induction front using List.reverseRecOn with
  | nil => exact ⟨rfl, fun earlier last hfront => absurd (List.prefix_nil.mp hfront) (by simp)⟩
  | append_singleton front outcome ih =>
    have hbefore : (p.run front).status = .looping := by
      by_contra hstopped
      rw [run_snoc, round_stopped hstopped] at h
      exact hstopped h
    obtain ⟨hcount, hbelow⟩ := ih hbefore
    obtain ⟨hnext, -, hloops⟩ := round_spec (p := p) outcome hbefore
    rw [run_snoc] at h ⊢
    rw [hcount, ← streak_snoc] at hnext hloops
    refine ⟨hnext, fun earlier last hfront => ?_⟩
    rcases List.prefix_concat_iff.mp hfront with heq | hshort
    · rw [heq]
      exact (hloops.mp h).1
    · exact hbelow earlier last hshort

/-- A loop that goes on has stayed below it. -/
theorem below_of_looping (hmax : 1 ≤ p.maxConsecutiveErrors)
    (h : (p.run front).status = .looping) : p.Below front := by
  intro earlier hfront
  rcases List.eq_nil_or_concat earlier with rfl | ⟨rest, last, rfl⟩
  · exact hmax
  · rw [List.concat_eq_append] at hfront ⊢
    exact (looping_spec h).2 rest last hfront

/-- Under the law the loop goes on while the streak is below its limit. -/
theorem Lawful.looping (h : p.Lawful outcomes) (hfront : front <+: outcomes)
    (hbelow : p.Below front) : (p.run front).status = .looping := by
  induction front using List.reverseRecOn with
  | nil => rfl
  | append_singleton front outcome ih =>
    have hbefore := ih ((List.prefix_append front [outcome]).trans hfront)
      fun earlier hearlier => hbelow earlier (hearlier.trans (List.prefix_append front [outcome]))
    have hraise := h.noRaise _ hfront
    have hends := h.ends front outcome hfront hbefore
    cases hstatus : (p.run (front ++ [outcome])).status with
    | looping => rfl
    | raised => exact absurd hstatus hraise
    | ended =>
      have hlimit := (hends.mp hstatus).2
      exact absurd hlimit (hbelow _ List.prefix_rfl).ne

/-- Where the delays fit, the loop never raises. -/
theorem noRaise_of_fits (hmax : 1 ≤ p.maxConsecutiveErrors)
    (hfits : ∀ front, front ++ [.failure] <+: outcomes → p.Below front →
      p.backoffPolicy.Fits (streak (front ++ [.failure])))
    (hfront : front <+: outcomes) : (p.run front).status ≠ .raised := by
  induction front using List.reverseRecOn with
  | nil => exact nofun
  | append_singleton front outcome ih =>
    by_cases hbefore : (p.run front).status = .looping
    · intro hraised
      rw [run_snoc, (round_spec _ hbefore).2.1, (looping_spec hbefore).1] at hraised
      obtain ⟨rfl, hnot⟩ := hraised
      have hfit := hfits front hfront (below_of_looping hmax hbefore)
      rw [streak_snoc] at hfit
      exact hnot hfit
    · rw [run_snoc, round_stopped hbefore]
      exact ih ((List.prefix_append front [outcome]).trans hfront)

/-- Where the delays fit, the loop ends exactly after the failure that reaches the limit. -/
theorem ended_iff_of_fits (hmax : 1 ≤ p.maxConsecutiveErrors)
    (hfits : ∀ front, front ++ [.failure] <+: outcomes → p.Below front →
      p.backoffPolicy.Fits (streak (front ++ [.failure])))
    (hfront : front ++ [outcome] <+: outcomes) (hbefore : (p.run front).status = .looping) :
    (p.run (front ++ [outcome])).status = .ended ↔
      outcome = .failure ∧ (streak (front ++ [outcome]) : ℤ) = p.maxConsecutiveErrors := by
  have hbelow := below_of_looping hmax hbefore
  have hlt := hbelow front List.prefix_rfl
  have hraise := noRaise_of_fits hmax hfits hfront
  have hfit : outcome = .failure →
      p.backoffPolicy.Fits ((p.run front).state.consecutiveErrors + 1) := by
    rintro rfl
    have hfit := hfits front hfront hbelow
    rwa [streak_snoc, ← (looping_spec hbefore).1] at hfit
  obtain ⟨-, -, hloops⟩ := round_spec (p := p) outcome hbefore
  rw [(looping_spec hbefore).1, ← streak_snoc, ← run_snoc] at hloops
  constructor
  · intro hended
    have hlimit : ¬ (streak (front ++ [outcome]) : ℤ) < p.maxConsecutiveErrors := by
      intro hless
      have hloop := hloops.mpr ⟨hless, by rwa [(looping_spec hbefore).1] at hfit⟩
      exact absurd (hended.symm.trans hloop) nofun
    rw [streak_snoc] at hlimit ⊢
    by_cases hfailure : outcome = .failure
    · subst hfailure
      refine ⟨rfl, ?_⟩
      change ((streak front + 1 : ℕ) : ℤ) = _
      change ¬ ((streak front + 1 : ℕ) : ℤ) < _ at hlimit
      omega
    · have hle := nextStreak_le hfailure (streak front)
      omega
  · rintro ⟨-, hlimit⟩
    cases hstatus : (p.run (front ++ [outcome])).status with
    | ended => rfl
    | raised => exact absurd hstatus hraise
    | looping => exact absurd hlimit (hloops.mp hstatus).1.ne

/-- Under the law at least one failure in a row is allowed, unless there is no run at all. -/
theorem Lawful.one_le_max (h : p.Lawful outcomes) : outcomes = [] ∨ 1 ≤ p.maxConsecutiveErrors := by
  cases outcomes with
  | nil => exact .inl rfl
  | cons outcome rest =>
    right
    by_contra hmax
    have hfront : [] ++ [outcome] <+: outcome :: rest := by simp
    have hstatus := h.noRaise _ hfront
    have hends := h.ends [] outcome hfront rfl
    obtain ⟨-, -, hloops⟩ := round_spec (p := p) outcome (w := p.run []) rfl
    rw [run_snoc] at hstatus hends
    cases hround : (p.round (p.run []) outcome).status with
    | raised => exact hstatus hround
    | looping =>
      have hlt := (hloops.mp hround).1
      omega
    | ended =>
      obtain ⟨rfl, hlimit⟩ := hends.mp hround
      rw [streak_snoc] at hlimit
      have hone : (nextStreak (streak []) .failure : ℤ) = 1 := rfl
      omega

/-- Under the law the delay of every failure that the loop comes to can be computed. -/
theorem Lawful.fits (h : p.Lawful outcomes) (hfront : front ++ [.failure] <+: outcomes)
    (hbelow : p.Below front) : p.backoffPolicy.Fits (streak (front ++ [.failure])) := by
  have hbefore := h.looping ((List.prefix_append front [.failure]).trans hfront) hbelow
  by_contra hnot
  refine h.noRaise _ hfront ?_
  rw [run_snoc, (round_spec _ hbefore).2.1, (looping_spec hbefore).1]
  rw [streak_snoc] at hnot
  exact ⟨rfl, hnot⟩

/-- The loop obeys the law exactly when at least one failure in a row is allowed and, for every
failure that it comes to, no integer is too large for a float in the computation of the delay. -/
theorem lawful_iff (p : RepeatingPipeline) (outcomes : List Outcome) :
    p.Lawful outcomes ↔
      (outcomes = [] ∨ 1 ≤ p.maxConsecutiveErrors) ∧
      ∀ front, front ++ [.failure] <+: outcomes → p.Below front →
        p.backoffPolicy.Fits (streak (front ++ [.failure])) := by
  constructor
  · exact fun h => ⟨h.one_le_max, fun front hfront hbelow => h.fits hfront hbelow⟩
  · rintro ⟨hnil | hmax, hfits⟩
    · subst hnil
      refine ⟨fun front hfront => ?_, fun front outcome hfront => ?_, fun front hfront => ?_⟩
      · rw [List.prefix_nil.mp hfront]
        exact nofun
      · exact absurd (List.prefix_nil.mp hfront) (by simp)
      · exact absurd (List.prefix_nil.mp hfront) (by simp)
    · refine ⟨fun front hfront => noRaise_of_fits hmax hfits hfront,
        fun front outcome hfront hbefore => ended_iff_of_fits hmax hfits hfront hbefore, ?_⟩
      intro front hfront hbefore
      have hfit := hfits front hfront (below_of_looping hmax hbefore)
      rw [streak_snoc] at hfit ⊢
      obtain ⟨hcount, -⟩ := looping_spec hbefore
      rw [run_snoc]
      have hwaits := round_waits hbefore (by rwa [hcount])
      rwa [hcount] at hwaits

/-- The default policy: a float base, which is fitting up to 1024 failures in a row. -/
def patient : RepeatingPipeline where
  schedule := .continuous
  maxConsecutiveErrors := 2000
  backoffPolicy := {}
  repeats := rfl

/-- A run of failures is a streak of them. -/
theorem streak_replicate (n : ℕ) : streak (List.replicate n .failure) = n := by
  induction n with
  | zero => rfl
  | succ n ih =>
    rw [List.replicate_succ', streak_snoc, ih]
    rfl

/-- Fewer failures than the maximum stay below it. -/
theorem below_replicate {n : ℕ} (hn : (n : ℤ) < p.maxConsecutiveErrors) :
    p.Below (List.replicate n .failure) := by
  intro earlier hfront
  have hearlier : earlier = List.replicate earlier.length .failure :=
    List.eq_replicate_of_mem fun o ho => List.eq_of_mem_replicate (hfront.subset ho)
  have hlength : earlier.length ≤ n := hfront.length_le.trans_eq List.length_replicate
  rw [hearlier, streak_replicate]
  omega

/-- With a float base, more than 1024 failures in a row make the loop raise. -/
theorem not_lawful_replicate {n : ℕ} {q : ℚ} (hbase : p.backoffPolicy.baseDelaySeconds = .float q)
    (hn : 1024 ≤ n) (hlimit : (n : ℤ) < p.maxConsecutiveErrors) :
    ¬ p.Lawful (List.replicate (n + 1) .failure) := by
  intro h
  have hfront : List.replicate n Outcome.failure ++ [.failure] <+:
      List.replicate (n + 1) .failure := by
    refine ⟨[], ?_⟩
    rw [List.append_nil, ← List.replicate_succ']
  have hbefore := h.looping ((List.prefix_append _ [.failure]).trans hfront)
    (below_replicate hlimit)
  refine h.noRaise _ hfront ?_
  rw [run_snoc, (round_spec _ hbefore).2.1, (looping_spec hbefore).1, streak_replicate]
  refine ⟨rfl, fun hfits => ?_⟩
  have hle := hfits.power q hbase
  omega

/-- The loop raises at the failure number 1025, although 2000 are allowed. -/
theorem not_lawful_patient : ¬ patient.Lawful (List.replicate 1025 .failure) :=
  not_lawful_replicate (n := 1024) rfl le_rfl (by decide)

end RepeatingPipeline

end AgoraEtl.Scheduler
