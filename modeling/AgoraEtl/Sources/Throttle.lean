import AgoraEtl.Sources.CircuitBreaker
import Mathlib.Algebra.Order.Field.Rat
import Mathlib.Tactic.Linarith

/-!
# The rate limit of the HTTP source

`_throttle` reads the time of the last request, sleeps for what is left of the interval, and writes the
time when it is back.  Between the two other calls may come, read the same time and sleep as long.  Every
call sleeps until the interval after the request that it has seen is over (`Inv.wakes`); so the requests
keep their distance on all runs on which no call starts one after a sleep through which another was
started (`requests_spaced`).
-/

namespace AgoraEtl.Throttle

open CircuitBreaker (AsyncCircuitBreaker)

/-! ### Spaced times -/

/-- The times of a list are at least so far apart, each from all that come later. -/
def Spaced (interval : ℚ) (times : List ℚ) : Prop :=
  times.Pairwise fun earlier later => earlier + interval ≤ later

/-- A time that is far enough from the last one is so from all. -/
theorem Spaced.concat {interval last time : ℚ} {times : List ℚ} (h : Spaced interval times)
    (hlast : ∀ earlier ∈ times, earlier ≤ last) (htime : last + interval ≤ time) :
    Spaced interval (times ++ [time]) := by
  refine List.pairwise_append.mpr ⟨h, List.pairwise_singleton _ _, ?_⟩
  intro earlier hearlier later hlater
  obtain rfl := List.mem_singleton.mp hlater
  exact (add_le_add_left (hlast earlier hearlier) interval).trans htime

/-- No two spaced times are in a window of the length of the interval. -/
theorem Spaced.window {interval : ℚ} {times : List ℚ} (h : Spaced interval times) (start : ℚ) :
    (times.filter fun time => start ≤ time ∧ time < start + interval).length ≤ 1 := by
  have hspaced : Spaced interval
      (times.filter fun time => start ≤ time ∧ time < start + interval) := h.filter _
  have hwindow : ∀ time ∈ times.filter fun time => start ≤ time ∧ time < start + interval,
      start ≤ time ∧ time < start + interval :=
    fun time hmem => of_decide_eq_true (List.mem_filter.mp hmem).2
  generalize times.filter (fun time => start ≤ time ∧ time < start + interval) = window at *
  match window with
  | [] | [_] => simp
  | first :: second :: rest =>
    have hfirst := (hwindow first List.mem_cons_self).1
    have hsecond := (hwindow second (List.mem_cons_of_mem _ List.mem_cons_self)).2
    have hapart := (List.pairwise_cons.mp hspaced).1 second List.mem_cons_self
    linarith

/-! ### Retries -/

variable {E : Type}

/-- `RetryPolicy`; a classifier of failures says whether one may be retried. -/
structure RetryPolicy (E : Type) where
  maxAttempts : ℕ
  initialBackoffS : ℚ
  backoffMultiplier : ℚ
  maxBackoffS : ℚ
  jitterRatio : ℚ
  retryExceptions : Option (E → Bool)
  retryIf : Option (E → Bool)
  failureClassifier : Option (E → Bool)
  one_le_maxAttempts : 1 ≤ maxAttempts
  initialBackoffS_nonneg : 0 ≤ initialBackoffS
  one_le_backoffMultiplier : 1 ≤ backoffMultiplier
  maxBackoffS_nonneg : 0 ≤ maxBackoffS
  jitterRatio_nonneg : 0 ≤ jitterRatio

namespace RetryPolicy

/-- `should_retry`. -/
def shouldRetry (self : RetryPolicy E) (exc : E) (attempt : ℕ) : Bool :=
  if self.maxAttempts ≤ attempt then false
  else if self.failureClassifier.any fun retryable => !retryable exc then false
  else if self.retryExceptions.any fun isinstance => !isinstance exc then false
  else if self.retryExceptions.isNone && self.failureClassifier.isNone then false
  else self.retryIf.all fun retryIf => retryIf exc

/-- `backoff_for`, with what `random` returns. -/
def backoffFor (self : RetryPolicy E) (attempt : ℕ) (random : ℚ) : ℚ :=
  let delay := min (self.initialBackoffS * self.backoffMultiplier ^ (attempt - 1)) self.maxBackoffS
  if self.jitterRatio ≤ 0 ∨ delay ≤ 0 then delay
  else
    let jitter := delay * self.jitterRatio
    max 0 (delay - jitter + 2 * jitter * random)

end RetryPolicy

/-! ### Calls -/

/-- `HTTPSource`, as it is configured. -/
structure HTTPSource (E : Type) where
  requestsPerSecond : ℚ
  retryPolicy : RetryPolicy E

/-- `_min_interval`. -/
def HTTPSource.minInterval (self : HTTPSource E) : ℚ := 1 / max self.requestsPerSecond (1 / 1000)

/-- The interval is not negative. -/
theorem HTTPSource.minInterval_nonneg (self : HTTPSource E) : 0 ≤ self.minInterval :=
  one_div_nonneg.mpr (le_max_of_le_right (by norm_num))

/-- Where a call of `get` or `post` is suspended. -/
inductive Phase where
  /-- In the sleep of `_throttle`, which has read the time of the last request. -/
  | throttled (attempt : ℕ) (last wake : ℚ)
  | requesting (attempt : ℕ)
  /-- In the sleep of `retry_async`. -/
  | backingOff (attempt : ℕ) (wake : ℚ)

/-- What the calls of a source share, and where they are. -/
structure World where
  lastRequestAt : ℚ := 0
  circuitBreaker : Option AsyncCircuitBreaker
  calls : ℕ → Option Phase := fun _ => none
  clock : ℚ
  /-- When the requests were started, in order. -/
  starts : List ℚ := []

/-- What happens next, with the readings of the clock. -/
inductive Event (E : Type) where
  | call (id : ℕ) (entered now later : ℚ)
  | wake (id : ℕ) (now : ℚ)
  | respond (id : ℕ) (now : ℚ)
  | fail (id : ℕ) (exc : E) (random : ℚ) (failed now later : ℚ)
  | resume (id : ℕ) (now later : ℚ)
  | cancel (id : ℕ) (now : ℚ)

/-- The readings of the clock, in order. -/
def Event.readings : Event E → List ℚ
  | .call _ entered now later => [entered, now, later]
  | .wake _ now => [now]
  | .respond _ now => [now]
  | .fail _ _ _ failed now later => [failed, now, later]
  | .resume _ now later => [now, later]
  | .cancel _ now => [now]

namespace World

/-- A new source, at some time. -/
def init (circuitBreaker : Option AsyncCircuitBreaker) (clock : ℚ) : World where
  circuitBreaker := circuitBreaker
  clock := clock

/-- A call goes on in another phase, or ends. -/
def goOn (w : World) (id : ℕ) (phase : Option Phase) : World :=
  { w with calls := Function.update w.calls id phase }

/-- A call that goes on leaves the others where they are. -/
theorem calls_goOn (w : World) (id : ℕ) (phase : Option Phase) (other : ℕ) :
    (w.goOn id phase).calls other = if other = id then phase else w.calls other :=
  Function.update_apply w.calls id phase other

/-- `_throttle` writes the time, and the request is started. -/
def start (w : World) (id attempt : ℕ) (now : ℚ) : World :=
  { w.goOn id (some (.requesting attempt)) with
    lastRequestAt := now
    starts := w.starts ++ [now] }

/-- `_do_request` up to where it is suspended. -/
def doRequest (source : HTTPSource E) (w : World) (id attempt : ℕ) (now later : ℚ) : World :=
  let elapsed := now - w.lastRequestAt
  if elapsed < source.minInterval then
    w.goOn id (some (.throttled attempt w.lastRequestAt (now + (source.minInterval - elapsed))))
  else w.start id attempt later

/-- A call ends, and the circuit breaker records how. -/
def settle (w : World) (id : ℕ) (outcome : AsyncCircuitBreaker.Outcome) (now : ℚ) : World :=
  { w.goOn id none with
    circuitBreaker := w.circuitBreaker.map fun breaker => breaker.record outcome now }

/-- A step, if the event is possible. -/
def perform (source : HTTPSource E) (w : World) : Event E → Option World
  | .call id entered now later =>
    match w.calls id, w.circuitBreaker with
    | some _, _ => none
    | none, none => some (doRequest source w id 1 now later)
    | none, some breaker =>
      match breaker.enter entered now with
      | .error _ => some w
      | .ok breaker =>
        some (doRequest source { w with circuitBreaker := some breaker } id 1 now later)
  | .wake id now =>
    match w.calls id with
    | some (.throttled attempt _ wake) =>
      if wake ≤ now then some (w.start id attempt now) else none
    | _ => none
  | .respond id now =>
    match w.calls id with
    | some (.requesting _) => some (w.settle id .returned now)
    | _ => none
  | .fail id exc random failed now later =>
    match w.calls id with
    | some (.requesting attempt) =>
      if source.retryPolicy.shouldRetry exc attempt then
        let delay := source.retryPolicy.backoffFor attempt random
        if 0 < delay then some (w.goOn id (some (.backingOff attempt (failed + delay))))
        else some (doRequest source w id (attempt + 1) now later)
      else some (w.settle id .exception failed)
    | _ => none
  | .resume id now later =>
    match w.calls id with
    | some (.backingOff attempt wake) =>
      if wake ≤ now then some (doRequest source w id (attempt + 1) now later) else none
    | _ => none
  | .cancel id now => (w.calls id).map fun _ => w.settle id .baseException now

/-- One step; the clock does not go back. -/
def next (source : HTTPSource E) (w : World) (event : Event E) : Option World :=
  if (w.clock :: event.readings).Pairwise (· ≤ ·) then
    (w.perform source event).map fun w' =>
      { w' with clock := event.readings.getLastD w.clock }
  else none

/-- The step that an event is. -/
def Step (source : HTTPSource E) (w : World) (event : Event E) (w' : World) : Prop :=
  w.next source event = some w'

/-- When a step keeps the distance: a call that comes back from the sleep of `_throttle` has seen the
request that was started last. -/
def Meets (w : World) : Event E → Prop
  | .wake id _ =>
    match w.calls id with
    | some (.throttled _ last _) => last = w.lastRequestAt
    | _ => True
  | _ => True

instance (w : World) (event : Event E) : Decidable (w.Meets event) :=
  match event with
  | .wake id _ => by
    unfold Meets
    dsimp only
    split <;> infer_instance
  | .call .. | .respond .. | .fail .. | .resume .. | .cancel .. => inferInstanceAs (Decidable True)

/-- What holds as long as every step keeps the distance. -/
structure Inv (source : HTTPSource E) (w : World) : Prop where
  spaced : Spaced source.minInterval w.starts
  last : ∀ time ∈ w.starts, time ≤ w.lastRequestAt
  wakes : ∀ id attempt last wake, w.calls id = some (.throttled attempt last wake) →
    last + source.minInterval ≤ wake

variable {source : HTTPSource E} {w w' : World}

/-- The invariant holds at the start. -/
theorem inv_init (circuitBreaker : Option AsyncCircuitBreaker) (clock : ℚ) :
    Inv source (init circuitBreaker clock) where
  spaced := List.Pairwise.nil
  last _ hmem := absurd hmem List.not_mem_nil
  wakes _ _ _ _ hcall := absurd hcall nofun

/-- A call that goes on keeps it, if it wakes late enough. -/
theorem Inv.goOn (h : Inv source w) (id : ℕ) (phase : Option Phase)
    (hphase : ∀ attempt last wake, phase = some (.throttled attempt last wake) →
      last + source.minInterval ≤ wake) : Inv source (w.goOn id phase) where
  spaced := h.spaced
  last := h.last
  wakes := by
    intro other attempt last wake hcall
    by_cases hid : other = id
    · subst hid
      exact hphase attempt last wake (by rwa [calls_goOn, if_pos rfl] at hcall)
    · exact h.wakes other attempt last wake (by rwa [calls_goOn, if_neg hid] at hcall)

/-- A call that is settled keeps it. -/
theorem Inv.settle (h : Inv source w) (id : ℕ) (outcome : AsyncCircuitBreaker.Outcome) (now : ℚ) :
    Inv source (w.settle id outcome now) :=
  have hend := h.goOn id none nofun
  ⟨hend.spaced, hend.last, hend.wakes⟩

/-- A request that is started an interval after the last one keeps the distance from all. -/
theorem Inv.start (h : Inv source w) (id attempt : ℕ) {now : ℚ}
    (hnow : w.lastRequestAt + source.minInterval ≤ now) : Inv source (w.start id attempt now) where
  spaced := h.spaced.concat h.last hnow
  last := by
    intro time hmem
    rcases List.mem_append.mp hmem with hbefore | hnew
    · have hnonneg := source.minInterval_nonneg
      have htime := h.last time hbefore
      change time ≤ now
      linarith
    · exact (List.mem_singleton.mp hnew).le
  wakes := (h.goOn id (some (.requesting attempt)) nofun).wakes

/-- The throttle lets a request through after the interval, or has its call sleep until then. -/
theorem Inv.doRequest (h : Inv source w) (id attempt : ℕ) {now later : ℚ} (hlater : now ≤ later) :
    Inv source (doRequest source w id attempt now later) := by
  dsimp only [World.doRequest]
  split
  next hearly =>
    refine h.goOn id _ ?_
    rintro _ _ _ ⟨⟩
    linarith
  next hover => exact h.start id attempt (by linarith)

/-- What a call performs under its condition keeps it. -/
theorem Inv.perform (h : Inv source w) {event : Event E}
    (hclock : (w.clock :: event.readings).Pairwise (· ≤ ·)) (hmeets : w.Meets event)
    (hperform : w.perform source event = some w') : Inv source w' := by
  cases event with
  | call id entered now later =>
    have hlater : now ≤ later := by simp_all [Event.readings]
    dsimp only [World.perform] at hperform
    split at hperform
    next => exact absurd hperform nofun
    next => exact Option.some.inj hperform ▸ h.doRequest id 1 hlater
    next breaker _ _ =>
      split at hperform
      next => exact Option.some.inj hperform ▸ h
      next breaker' _ =>
        have hbreaker : Inv source { w with circuitBreaker := some breaker' } :=
          ⟨h.spaced, h.last, h.wakes⟩
        exact Option.some.inj hperform ▸ hbreaker.doRequest id 1 hlater
  | wake id now =>
    dsimp only [World.perform] at hperform
    split at hperform
    next attempt last wake hcall =>
      obtain ⟨hwake, hstart⟩ := Option.ite_none_right_eq_some.mp hperform
      obtain rfl : last = w.lastRequestAt := by
        simpa only [World.Meets, hcall] using hmeets
      exact Option.some.inj hstart ▸ h.start id attempt ((h.wakes id attempt _ wake hcall).trans hwake)
    next => exact absurd hperform nofun
  | respond id now =>
    dsimp only [World.perform] at hperform
    split at hperform
    next => exact Option.some.inj hperform ▸ h.settle id .returned now
    next => exact absurd hperform nofun
  | fail id exc random failed now later =>
    have hlater : now ≤ later := by simp_all [Event.readings]
    dsimp only [World.perform] at hperform
    split at hperform
    next attempt _ =>
      split at hperform
      next =>
        split at hperform
        next => exact Option.some.inj hperform ▸ h.goOn id _ nofun
        next => exact Option.some.inj hperform ▸ h.doRequest id (attempt + 1) hlater
      next => exact Option.some.inj hperform ▸ h.settle id .exception failed
    next => exact absurd hperform nofun
  | resume id now later =>
    have hlater : now ≤ later := by simp_all [Event.readings]
    dsimp only [World.perform] at hperform
    split at hperform
    next attempt wake _ =>
      obtain ⟨-, hdone⟩ := Option.ite_none_right_eq_some.mp hperform
      exact Option.some.inj hdone ▸ h.doRequest id (attempt + 1) hlater
    next => exact absurd hperform nofun
  | cancel id now =>
    obtain ⟨-, -, rfl⟩ := Option.map_eq_some_iff.mp hperform
    exact h.settle id .baseException now

/-- A step under its condition keeps it. -/
theorem Inv.next (h : Inv source w) {event : Event E} (hstep : Step source w event w')
    (hmeets : w.Meets event) : Inv source w' := by
  obtain ⟨hclock, hperformed⟩ := Option.ite_none_right_eq_some.mp hstep
  obtain ⟨w₁, hperform, rfl⟩ := Option.map_eq_some_iff.mp hperformed
  have hdone := h.perform hclock hmeets hperform
  exact ⟨hdone.spaced, hdone.last, hdone.wakes⟩

/-! ### Runs -/

/-- On a run on which no call starts a request after a sleep through which another was started, any two
requests are started at least the interval apart, and no two in a window of that length. -/
theorem requests_spaced (source : HTTPSource E) (circuitBreaker : Option AsyncCircuitBreaker)
    (clock : ℚ) {events : List (Event E)} {w : World}
    (hrun : Effect.Runs (fun w event w' => Step source w event w' ∧ w.Meets event)
      (init circuitBreaker clock) events w) :
    Spaced source.minInterval w.starts ∧
      ∀ start, (w.starts.filter fun time =>
        start ≤ time ∧ time < start + source.minInterval).length ≤ 1 := by
  have hinv : Inv source w := hrun.invariant (I := fun _ => Inv source)
    (inv_init circuitBreaker clock) fun _ _ _ _ h hnext => h.next hnext.1 hnext.2
  exact ⟨hinv.spaced, hinv.spaced.window⟩

/-- One request a second, and no retries. -/
def oneASecond : HTTPSource Unit where
  requestsPerSecond := 1
  retryPolicy :=
    { maxAttempts := 1, initialBackoffS := 1, backoffMultiplier := 2, maxBackoffS := 30
      jitterRatio := 0, retryExceptions := none, retryIf := none, failureClassifier := none
      one_le_maxAttempts := le_rfl
      initialBackoffS_nonneg := by norm_num
      one_le_backoffMultiplier := by norm_num
      maxBackoffS_nonneg := by norm_num
      jitterRatio_nonneg := le_rfl }

/-- A request, and two more that wait for its interval together. -/
def twoWaiting : List (Event Unit) :=
  [.call 0 100 100 100, .call 1 100 100 100, .call 2 100 100 100, .wake 1 101, .wake 2 101]

/-- Two calls that wait for the same request wake up together. -/
theorem not_requests_spaced :
    ∃ w, Effect.Runs (Step oneASecond) (init none 100) twoWaiting w ∧
      w.starts = [100, 101, 101] ∧ ¬ Spaced oneASecond.minInterval w.starts := by
  have hrun : (twoWaiting.foldlM (next oneASecond) (init none 100)).map World.starts =
      some [(100 : ℚ), 101, 101] := by decide +kernel
  obtain ⟨w, hw, hstarts⟩ := Option.map_eq_some_iff.mp hrun
  refine ⟨w, Effect.Runs.of_foldlM hw, hstarts, ?_⟩
  rw [hstarts]
  unfold Spaced
  decide +kernel

/-- A request, and one that waits for its interval. -/
def oneWaiting : List (Event Unit) := [.call 0 100 100 100, .call 1 100 100 100, .wake 1 101]

/-- One call that waits wakes up a second later. -/
theorem requests_spaced_oneWaiting :
    ∃ w : World, w.starts = [100, 101] ∧ Spaced oneASecond.minInterval w.starts ∧
      ∀ start, (w.starts.filter fun time =>
        start ≤ time ∧ time < start + oneASecond.minInterval).length ≤ 1 := by
  have hmeets : (oneWaiting.foldlM
      (fun (w : World) event => if w.Meets event then next oneASecond w event else none)
      (init none 100)).map World.starts = some [(100 : ℚ), 101] := by decide +kernel
  obtain ⟨w, hw, hstarts⟩ := Option.map_eq_some_iff.mp hmeets
  have hrun : Effect.Runs (fun w event w' => Step oneASecond w event w' ∧ w.Meets event)
      (init none 100) oneWaiting w :=
    (Effect.Runs.of_foldlM hw).mono fun _ _ _ hnext =>
      (Option.ite_none_right_eq_some.mp hnext).symm
  exact ⟨w, hstarts, requests_spaced oneASecond none 100 hrun⟩

end World

end AgoraEtl.Throttle
