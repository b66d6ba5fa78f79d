import AgoraEtl.Effect.Runs
import Mathlib.Algebra.Order.Ring.Rat
import Mathlib.Data.List.Nodup

/-!
# The circuit breaker

`call` looks at the state under the lock, runs `fn` without it, and records the result under the lock
again. The locked sections do not suspend, so each of them is one step and the lock is never waited
for; between the two steps of a call any others may come. The breaker does not know when a call was
admitted: a result counts in whatever state it arrives.
-/

namespace AgoraEtl.CircuitBreaker

/-! ### The breaker -/

/-- `CircuitState`. -/
inductive CircuitState where
  | closed
  | opened
  | halfOpen
  deriving DecidableEq, Repr

/-- `CircuitBreakerConfig`. -/
structure CircuitBreakerConfig where
  failureThreshold : ℤ := 5
  timeoutSeconds : ℚ := 60
  successThreshold : ℤ := 2

/-- `CircuitBreakerOpenError`. -/
structure CircuitBreakerOpenError where
  name : String
  retryIn : ℚ

/-- `AsyncCircuitBreaker`. -/
structure AsyncCircuitBreaker where
  name : String
  cfg : CircuitBreakerConfig
  state : CircuitState := .closed
  failureCount : ℕ := 0
  successCount : ℕ := 0
  lastFailureTime : Option ℚ := none

namespace AsyncCircuitBreaker

/-- `_should_attempt_reset`, at a reading of the clock. -/
def shouldAttemptReset (b : AsyncCircuitBreaker) (now : ℚ) : Bool :=
  match b.lastFailureTime with
  | none => true
  | some last => b.cfg.timeoutSeconds ≤ now - last

/-- `_time_until_retry`. -/
def timeUntilRetry (b : AsyncCircuitBreaker) (now : ℚ) : ℚ :=
  match b.lastFailureTime with
  | none => 0
  | some last => max 0 (b.cfg.timeoutSeconds - (now - last))

/-- `_set_state`. -/
def setState (b : AsyncCircuitBreaker) (new : CircuitState) : AsyncCircuitBreaker :=
  if new = b.state then b
  else if new = .closed then { b with state := new, failureCount := 0, successCount := 0 }
  else { b with state := new }

/-- `_on_success`. -/
def onSuccess (b : AsyncCircuitBreaker) : AsyncCircuitBreaker :=
  let b := { b with failureCount := 0 }
  if b.state = .halfOpen then
    let b := { b with successCount := b.successCount + 1 }
    if b.cfg.successThreshold ≤ b.successCount then b.setState .closed else b
  else b

/-- `_on_failure`. -/
def onFailure (b : AsyncCircuitBreaker) (now : ℚ) : AsyncCircuitBreaker :=
  let b := { b with
    failureCount := b.failureCount + 1
    successCount := 0
    lastFailureTime := some now }
  match b.state with
  | .closed => if b.cfg.failureThreshold ≤ b.failureCount then b.setState .opened else b
  | .halfOpen => b.setState .opened
  | .opened => b

/-- The first locked section of `call`, with the readings of the clock for the test and for the error
that is raised. -/
def enter (b : AsyncCircuitBreaker) (now later : ℚ) :
    Except CircuitBreakerOpenError AsyncCircuitBreaker :=
  if b.state = .opened then
    if b.shouldAttemptReset now then .ok (b.setState .halfOpen)
    else .error ⟨b.name, b.timeUntilRetry later⟩
  else .ok b

/-- How `fn` ends: it returns, or it raises `CircuitBreakerOpenError`, another `Exception`, or
something that is none. -/
inductive Outcome where
  | returned
  | openError
  | exception
  | baseException
  deriving DecidableEq, Repr

/-- The second locked section of `call`. -/
def record (b : AsyncCircuitBreaker) (outcome : Outcome) (now : ℚ) : AsyncCircuitBreaker :=
  match outcome with
  | .returned => b.onSuccess
  | .exception => b.onFailure now
  | .openError | .baseException => b

/-- What the breaker counts, in each state. -/
structure Counts (b : AsyncCircuitBreaker) : Prop where
  opened : b.state = .opened → b.lastFailureTime ≠ none
  successes : b.state ≠ .halfOpen → b.successCount = 0
  probing : b.successCount = 0 ∨ (b.successCount : ℤ) < b.cfg.successThreshold
  failures : b.state = .closed → (b.failureCount : ℤ) < b.cfg.failureThreshold

variable {b : AsyncCircuitBreaker}

/-- A change to a state other than CLOSED resets no counter. -/
theorem setState_of_ne {new : CircuitState} (hne : new ≠ b.state) (hopen : new ≠ .closed) :
    b.setState new = { b with state := new } := by
  rw [setState, if_neg hne, if_neg hopen]

/-- A breaker that is not open lets the call through. -/
theorem enter_of_ne (h : b.state ≠ .opened) (now later : ℚ) : b.enter now later = .ok b :=
  if_neg h

/-- An open one whose time is over becomes half open. -/
theorem enter_reset (h : b.state = .opened) {now : ℚ} (hreset : b.shouldAttemptReset now = true)
    (later : ℚ) : b.enter now later = .ok { b with state := .halfOpen } := by
  rw [enter, if_pos h, if_pos hreset, setState_of_ne (by rw [h]; decide) (by decide)]

/-- An open one whose time is not over rejects the call. -/
theorem enter_rejected (h : b.state = .opened) {now : ℚ}
    (hreset : b.shouldAttemptReset now = false) (later : ℚ) :
    b.enter now later = .error ⟨b.name, b.timeUntilRetry later⟩ := by
  rw [enter, if_pos h, if_neg (by simp [hreset])]

/-- A success resets the failures. -/
theorem onSuccess_of_ne (h : b.state ≠ .halfOpen) : b.onSuccess = { b with failureCount := 0 } :=
  if_neg h

/-- The last success that is needed closes a half-open breaker. -/
theorem onSuccess_closes (h : b.state = .halfOpen)
    (henough : b.cfg.successThreshold ≤ b.successCount + 1) :
    b.onSuccess = { b with state := .closed, failureCount := 0, successCount := 0 } := by
  unfold onSuccess
  dsimp only
  rw [if_pos h, if_pos (by exact_mod_cast henough), setState, if_neg (by simp [h]), if_pos rfl]

/-- The others are counted. -/
theorem onSuccess_counts (h : b.state = .halfOpen)
    (hmore : ¬ b.cfg.successThreshold ≤ b.successCount + 1) :
    b.onSuccess = { b with failureCount := 0, successCount := b.successCount + 1 } := by
  unfold onSuccess
  dsimp only
  rw [if_pos h, if_neg (by exact_mod_cast hmore)]

/-- A recorded failure opens the breaker, or the state stays: `OPEN`, or `CLOSED` below the
threshold. -/
theorem onFailure_cases (b : AsyncCircuitBreaker) (now : ℚ) :
    ∃ state, b.onFailure now = { b with
        state := state
        failureCount := b.failureCount + 1
        successCount := 0
        lastFailureTime := some now } ∧
      (state = .opened ∨ (state = .closed ∧ b.state = .closed ∧
        (b.failureCount + 1 : ℤ) < b.cfg.failureThreshold)) := by
  unfold onFailure
  cases hstate : b.state with
  | closed =>
    dsimp only
    split
    next => exact ⟨.opened, by simp [setState], .inl rfl⟩
    next hfew =>
      refine ⟨.closed, by simp, .inr ⟨rfl, rfl, ?_⟩⟩
      push Not at hfew
      exact_mod_cast hfew
  | opened => exact ⟨.opened, by simp, .inl rfl⟩
  | halfOpen => exact ⟨.opened, by simp [setState], .inl rfl⟩

/-- The configuration does not change. -/
@[simp]
theorem record_cfg (b : AsyncCircuitBreaker) (outcome : Outcome) (now : ℚ) :
    (b.record outcome now).cfg = b.cfg := by
  cases outcome with
  | returned =>
    by_cases h : b.state = .halfOpen
    · by_cases henough : b.cfg.successThreshold ≤ b.successCount + 1
      · rw [record, onSuccess_closes h henough]
      · rw [record, onSuccess_counts h henough]
    · rw [record, onSuccess_of_ne h]
  | exception =>
    obtain ⟨state, hfailure, -⟩ := b.onFailure_cases now
    rw [record, hfailure]
  | openError => rfl
  | baseException => rfl

/-- A call that is let through leaves the counters in range. -/
theorem Counts.enter (h : Counts b) {b' : AsyncCircuitBreaker} {now later : ℚ}
    (henter : b.enter now later = .ok b') : Counts b' := by
  by_cases hopen : b.state = .opened
  · cases hreset : b.shouldAttemptReset now with
    | false =>
      rw [enter_rejected hopen hreset] at henter
      exact absurd henter nofun
    | true =>
      rw [enter_reset hopen hreset, Except.ok.injEq] at henter
      subst henter
      exact ⟨fun hstate => absurd hstate (by simp), fun hstate => absurd rfl hstate, h.probing,
        fun hstate => absurd hstate (by simp)⟩
  · rw [enter_of_ne hopen, Except.ok.injEq] at henter
    exact henter ▸ h

/-- So does its outcome. -/
theorem Counts.record (h : Counts b) (hpositive : 0 < b.cfg.failureThreshold) (outcome : Outcome)
    (now : ℚ) : Counts (b.record outcome now) := by
  cases outcome with
  | returned =>
    by_cases hhalf : b.state = .halfOpen
    · by_cases henough : b.cfg.successThreshold ≤ b.successCount + 1
      · rw [AsyncCircuitBreaker.record, onSuccess_closes hhalf henough]
        exact ⟨fun hstate => absurd hstate (by simp), fun _ => rfl, .inl rfl, fun _ => hpositive⟩
      · rw [AsyncCircuitBreaker.record, onSuccess_counts hhalf henough]
        push Not at henough
        refine ⟨fun hstate => ?_, fun hstate => absurd hhalf hstate, .inr ?_, fun hstate => ?_⟩
        · exact absurd (hhalf.symm.trans hstate) (by decide)
        · exact_mod_cast henough
        · exact absurd (hhalf.symm.trans hstate) (by decide)
    · rw [AsyncCircuitBreaker.record, onSuccess_of_ne hhalf]
      exact ⟨h.opened, h.successes, h.probing, fun _ => hpositive⟩
  | exception =>
    obtain ⟨state, hfailure, hstate⟩ := b.onFailure_cases now
    rw [AsyncCircuitBreaker.record, hfailure]
    refine ⟨fun _ => Option.some_ne_none now, fun _ => rfl, .inl rfl, fun hclosed => ?_⟩
    rcases hstate with rfl | ⟨-, -, hfew⟩
    · exact absurd hclosed (by simp)
    · exact_mod_cast hfew
  | openError => exact h
  | baseException => exact h

end AsyncCircuitBreaker

/-! ### Concurrent calls -/

/-- A call of `fn` that has not ended. -/
structure Call where
  id : ℕ
  /-- Which time the breaker was `HALF_OPEN`, if it was when the call was admitted. -/
  period : Option ℕ
  deriving DecidableEq, Repr

/-- The call was admitted while the breaker was `HALF_OPEN`. -/
def Call.probe (call : Call) : Bool := call.period.isSome

/-- The breaker and the calls. -/
structure World where
  breaker : AsyncCircuitBreaker
  inFlight : List Call := []
  /-- How often the breaker has become `HALF_OPEN`. -/
  period : ℕ := 0
  /-- The calls whose success was recorded since then, with no failure in between. -/
  successes : List Call := []

namespace World

/-- A new breaker. -/
def init (name : String) (cfg : CircuitBreakerConfig) : World where
  breaker := { name := name, cfg := cfg }

/-- What happens next: a call comes, or `fn` ends. -/
inductive Event where
  | call (id : ℕ) (now later : ℚ)
  | finish (id : ℕ) (outcome : AsyncCircuitBreaker.Outcome) (now : ℚ)

/-- `fn` is invoked by a call that the breaker lets through. -/
def invoke (w : World) (id : ℕ) (breaker : AsyncCircuitBreaker) : World :=
  if breaker.state = .halfOpen then
    if w.breaker.state = .halfOpen then
      { w with breaker := breaker, inFlight := ⟨id, some w.period⟩ :: w.inFlight }
    else
      { breaker := breaker, inFlight := ⟨id, some (w.period + 1)⟩ :: w.inFlight,
        period := w.period + 1, successes := [] }
  else { w with breaker := breaker, inFlight := ⟨id, none⟩ :: w.inFlight }

/-- `fn` has ended, and its result is recorded. -/
def settle (w : World) (call : Call) (outcome : AsyncCircuitBreaker.Outcome) (now : ℚ) : World where
  breaker := w.breaker.record outcome now
  inFlight := w.inFlight.filter fun other => other.id ≠ call.id
  period := w.period
  successes :=
    match outcome with
    | .returned => call :: w.successes
    | .exception => []
    | .openError | .baseException => w.successes

/-- One step; nothing if the event is not possible. -/
def next (w : World) : Event → Option World
  | .call id now later =>
    if w.inFlight.any fun call => call.id = id then none
    else
      match w.breaker.enter now later with
      | .error _ => some w
      | .ok breaker => some (w.invoke id breaker)
  | .finish id outcome now =>
    (w.inFlight.find? fun call => call.id = id).map fun call => w.settle call outcome now

/-- The step that an event is. -/
def Step (w : World) (event : Event) (w' : World) : Prop := w.next event = some w'

/-! ### The protocol -/

/-- Calls in flight that were admitted while the breaker was `HALF_OPEN`. -/
def probes (w : World) : List Call := w.inFlight.filter Call.probe

/-- Recorded successes of calls that were admitted since the breaker became `HALF_OPEN`. -/
def ownSuccesses (w : World) : List Call :=
  w.successes.filter fun call => call.period = some w.period

/-- What the protocol says of a step. -/
structure Safe (w : World) (event : Event) (w' : World) : Prop where
  rejects : ∀ id now later, event = .call id now later → w.breaker.state = .opened →
    w'.inFlight ≠ w.inFlight → ∃ last, w.breaker.lastFailureTime = some last ∧
      w.breaker.cfg.timeoutSeconds ≤ now - last
  probes : w'.breaker.state = .halfOpen → w'.probes.length ≤ 1
  closes : w.breaker.state = .halfOpen → w'.breaker.state = .closed →
    w'.breaker.cfg.successThreshold ≤ w'.ownSuccesses.length
  failures : w'.breaker.state = .closed →
    (w'.breaker.failureCount : ℤ) < w'.breaker.cfg.failureThreshold

/-- When a step is what the protocol says: no call is let through as a probe while there is one, and
no call that was admitted before the breaker became `HALF_OPEN` has its success counted when it
closes. -/
def Meets (w : World) : Event → Prop
  | .call _ now _ => w.breaker.state = .halfOpen ∨
      (w.breaker.state = .opened ∧ w.breaker.shouldAttemptReset now = true) → w.probes = []
  | .finish id .returned _ => w.breaker.state = .halfOpen →
      w.breaker.cfg.successThreshold ≤ w.breaker.successCount + 1 →
      w.breaker.cfg.successThreshold ≤ 0 ∨
        ((∀ call ∈ w.inFlight, call.id = id → call.period = some w.period) ∧
          ∀ call ∈ w.successes, call.period = some w.period)
  | .finish _ _ _ => True

/-- What holds as long as every step is what the protocol says. -/
structure Inv (w : World) : Prop where
  positive : 0 < w.breaker.cfg.failureThreshold
  counts : w.breaker.Counts
  probes : w.probes.length ≤ 1
  successes : w.breaker.state = .halfOpen → w.successes.length = w.breaker.successCount
  ids : (w.inFlight.map Call.id).Nodup

variable {w w' : World}

/-- What a step can be: a call that is rejected, one that is let through, or an outcome. -/
theorem step_cases {event : Event} (h : Step w event w') :
    (∃ id now later, event = .call id now later ∧ w.breaker.state = .opened ∧
      w.breaker.shouldAttemptReset now = false ∧ w' = w) ∨
    (∃ id now later breaker, event = .call id now later ∧ id ∉ w.inFlight.map Call.id ∧
      w.breaker.enter now later = .ok breaker ∧ w' = w.invoke id breaker) ∨
    ∃ call outcome now, event = .finish call.id outcome now ∧ call ∈ w.inFlight ∧
      w' = w.settle call outcome now := by
  cases event with
  | call id now later =>
    dsimp only [Step, next] at h
    split at h
    next => exact absurd h nofun
    next hfresh =>
      have hfresh' : id ∉ w.inFlight.map Call.id := by
        intro hmem
        obtain ⟨call, hcall, rfl⟩ := List.mem_map.mp hmem
        exact hfresh (List.any_eq_true.mpr ⟨call, hcall, by simp⟩)
      cases henter : w.breaker.enter now later with
      | ok breaker =>
        rw [henter] at h
        exact .inr (.inl ⟨id, now, later, breaker, rfl, hfresh', henter, (Option.some.inj h).symm⟩)
      | error error =>
        rw [henter] at h
        have hopen : w.breaker.state = .opened := by
          by_contra hne
          rw [AsyncCircuitBreaker.enter_of_ne hne] at henter
          exact absurd henter nofun
        have hreset : w.breaker.shouldAttemptReset now = false := by
          by_contra hne
          rw [AsyncCircuitBreaker.enter_reset hopen (by simpa using hne)] at henter
          exact absurd henter nofun
        exact .inl ⟨id, now, later, rfl, hopen, hreset, (Option.some.inj h).symm⟩
  | finish id outcome now =>
    dsimp only [Step, next] at h
    rw [Option.map_eq_some_iff] at h
    obtain ⟨call, hfind, rfl⟩ := h
    have hid : call.id = id := by simpa using List.find?_some hfind
    subst hid
    exact .inr (.inr ⟨call, outcome, now, rfl, List.mem_of_find?_eq_some hfind, rfl⟩)

/-- What the breaker is after it has let a call through. -/
theorem enter_cases {breaker b : AsyncCircuitBreaker} {now later : ℚ}
    (h : breaker.enter now later = .ok b) :
    (breaker.state = .closed ∧ b = breaker) ∨ (breaker.state = .halfOpen ∧ b = breaker) ∨
      (breaker.state = .opened ∧ breaker.shouldAttemptReset now = true ∧
        b = { breaker with state := .halfOpen }) := by
  by_cases hopen : breaker.state = .opened
  · cases hreset : breaker.shouldAttemptReset now with
    | false =>
      rw [AsyncCircuitBreaker.enter_rejected hopen hreset] at h
      exact absurd h nofun
    | true =>
      rw [AsyncCircuitBreaker.enter_reset hopen hreset, Except.ok.injEq] at h
      exact .inr (.inr ⟨hopen, rfl, h.symm⟩)
  · rw [AsyncCircuitBreaker.enter_of_ne hopen, Except.ok.injEq] at h
    cases hstate : breaker.state with
    | closed => exact .inl ⟨rfl, h.symm⟩
    | opened => exact absurd hstate hopen
    | halfOpen => exact .inr (.inl ⟨rfl, h.symm⟩)

/-- A call that is let through leaves the breaker as it is. -/
@[simp]
theorem invoke_breaker (w : World) (id : ℕ) (breaker : AsyncCircuitBreaker) :
    (w.invoke id breaker).breaker = breaker := by
  unfold invoke
  split
  · split <;> rfl
  · rfl

/-- It is in flight, as a probe if the breaker is half open. -/
theorem invoke_inFlight (w : World) (id : ℕ) (breaker : AsyncCircuitBreaker) :
    ∃ call : Call, call.id = id ∧ (call.probe = true ↔ breaker.state = .halfOpen) ∧
      (w.invoke id breaker).inFlight = call :: w.inFlight := by
  unfold invoke
  split
  next hhalf =>
    split
    · exact ⟨⟨id, some w.period⟩, rfl, iff_of_true rfl hhalf, rfl⟩
    · exact ⟨⟨id, some (w.period + 1)⟩, rfl, iff_of_true rfl hhalf, rfl⟩
  next hhalf => exact ⟨⟨id, none⟩, rfl, iff_of_false Bool.false_ne_true hhalf, rfl⟩

/-- It adds a probe if the breaker is half open. -/
theorem probes_invoke (w : World) (id : ℕ) (breaker : AsyncCircuitBreaker) :
    (w.invoke id breaker).probes.length =
      w.probes.length + if breaker.state = .halfOpen then 1 else 0 := by
  obtain ⟨call, -, hprobe, hcalls⟩ := w.invoke_inFlight id breaker
  rw [World.probes, hcalls, List.filter_cons]
  by_cases hhalf : breaker.state = .halfOpen
  · rw [if_pos (hprobe.mpr hhalf), if_pos hhalf]
    rfl
  · rw [if_neg (mt hprobe.mp hhalf), if_neg hhalf]
    rfl

/-- An outcome adds no probe. -/
theorem probes_settle (w : World) (call : Call) (outcome : AsyncCircuitBreaker.Outcome) (now : ℚ) :
    (w.settle call outcome now).probes.length ≤ w.probes.length :=
  (List.filter_sublist.filter Call.probe).length_le

/-- The breaker closes after enough successes of its own exactly if all that it counted are. -/
theorem closes_iff (h : w.Inv) (hhalf : w.breaker.state = .halfOpen)
    (henough : w.breaker.cfg.successThreshold ≤ w.breaker.successCount + 1) (call : Call) :
    w.breaker.cfg.successThreshold ≤
        ((call :: w.successes).filter fun call => call.period = some w.period).length ↔
      w.breaker.cfg.successThreshold ≤ 0 ∨ (call.period = some w.period ∧
        ∀ call ∈ w.successes, call.period = some w.period) := by
  have hlength : (call :: w.successes).length = w.breaker.successCount + 1 := by
    rw [List.length_cons, h.successes hhalf]
  have hcount := h.counts.probing
  have hle := List.length_filter_le (fun call => decide (call.period = some w.period))
    (call :: w.successes)
  have hall : ((call :: w.successes).filter fun call => call.period = some w.period).length =
      (call :: w.successes).length ↔ call.period = some w.period ∧
        ∀ call ∈ w.successes, call.period = some w.period := by
    rw [List.length_filter_eq_length_iff, List.forall_mem_cons]
    simp
  rw [← hall]
  omega

/-- The outcome of a call cannot close the breaker, save a success in `HALF_OPEN`. -/
theorem closed_of_settle {call : Call} {outcome : AsyncCircuitBreaker.Outcome} {now : ℚ}
    (hhalf : w.breaker.state = .halfOpen)
    (hclosed : (w.settle call outcome now).breaker.state = .closed) :
    outcome = .returned ∧ w.breaker.cfg.successThreshold ≤ w.breaker.successCount + 1 := by
  cases outcome with
  | returned =>
    refine ⟨rfl, ?_⟩
    by_contra hmore
    have hstate : w.breaker.onSuccess.state = .halfOpen := by
      rw [AsyncCircuitBreaker.onSuccess_counts hhalf hmore]
      exact hhalf
    exact absurd (hclosed.symm.trans hstate) (by decide)
  | exception =>
    obtain ⟨state, hfailure, hstate⟩ := w.breaker.onFailure_cases now
    have hclosed' : (w.breaker.onFailure now).state = .closed := hclosed
    rw [hfailure] at hclosed'
    rcases hstate with rfl | ⟨-, hbefore, -⟩
    · exact absurd hclosed' (by simp)
    · exact absurd (hhalf.symm.trans hbefore) (by decide)
  | openError => exact absurd (hhalf.symm.trans hclosed) (by decide)
  | baseException => exact absurd (hhalf.symm.trans hclosed) (by decide)

/-- An outcome is safe exactly under its condition. -/
theorem safe_iff_meets_settle (h : w.Inv) {call : Call} (hcall : call ∈ w.inFlight)
    (outcome : AsyncCircuitBreaker.Outcome) (now : ℚ) :
    Safe w (.finish call.id outcome now) (w.settle call outcome now) ↔
      Meets w (.finish call.id outcome now) := by
  have hrejects : ∀ id at' later, Event.finish call.id outcome now = .call id at' later →
      w.breaker.state = .opened → (w.settle call outcome now).inFlight ≠ w.inFlight →
      ∃ last, w.breaker.lastFailureTime = some last ∧
        w.breaker.cfg.timeoutSeconds ≤ at' - last := nofun
  have hprobes := (w.probes_settle call outcome now).trans h.probes
  have hfailures := (h.counts.record h.positive outcome now).failures
  have hcfg : (w.settle call outcome now).breaker.cfg = w.breaker.cfg :=
    AsyncCircuitBreaker.record_cfg _ _ _
  by_cases hcloses : w.breaker.state = .halfOpen ∧
      (w.settle call outcome now).breaker.state = .closed
  · obtain ⟨hhalf, hclosed⟩ := hcloses
    obtain ⟨rfl, henough⟩ := closed_of_settle hhalf hclosed
    have hsame : ∀ other ∈ w.inFlight, other.id = call.id → other = call :=
      fun other hother hid => List.inj_on_of_nodup_map h.ids hother hcall hid
    have hown : (∀ other ∈ w.inFlight, other.id = call.id → other.period = some w.period) ↔
        call.period = some w.period := by
      constructor
      · exact fun hall => hall call hcall rfl
      · exact fun hperiod other hother hid => hsame other hother hid ▸ hperiod
    have hiff := closes_iff h hhalf henough call
    constructor
    · intro hsafe _ _
      have hmany := hsafe.closes hhalf hclosed
      rw [hcfg] at hmany
      rw [hown]
      exact hiff.mp hmany
    · intro hmeets
      have hmet := hmeets hhalf henough
      rw [hown] at hmet
      refine ⟨hrejects, fun _ => hprobes, fun _ _ => ?_, hfailures⟩
      rw [hcfg]
      exact hiff.mpr hmet
  · refine iff_of_true ⟨hrejects, fun _ => hprobes, fun hhalf hclosed => ?_, hfailures⟩ ?_
    · exact absurd ⟨hhalf, hclosed⟩ hcloses
    · cases outcome with
      | returned =>
        intro hhalf henough
        refine absurd ⟨hhalf, ?_⟩ hcloses
        have hclosed : w.breaker.onSuccess.state = .closed := by
          rw [AsyncCircuitBreaker.onSuccess_closes hhalf henough]
        exact hclosed
      | exception => trivial
      | openError => trivial
      | baseException => trivial

/-- A call is safe exactly under its condition. -/
theorem safe_iff_meets_invoke (h : w.Inv) {id : ℕ} {now later : ℚ} {breaker : AsyncCircuitBreaker}
    (henter : w.breaker.enter now later = .ok breaker) :
    Safe w (.call id now later) (w.invoke id breaker) ↔ Meets w (.call id now later) := by
  have hprobes := w.probes_invoke id breaker
  have hfailures := (h.counts.enter henter).failures
  have hnone : w.probes.length + 1 ≤ 1 ↔ w.probes = [] := by
    rw [← List.length_eq_zero_iff]
    omega
  rcases enter_cases henter with ⟨hstate, rfl⟩ | ⟨hstate, rfl⟩ | ⟨hstate, hreset, rfl⟩
  · refine iff_of_true ⟨fun _ _ _ _ hopen => ?_, fun hhalf => ?_, fun hhalf => ?_, ?_⟩ ?_
    · exact absurd (hstate.symm.trans hopen) (by decide)
    · rw [invoke_breaker] at hhalf
      exact absurd (hstate.symm.trans hhalf) (by decide)
    · exact absurd (hstate.symm.trans hhalf) (by decide)
    · rwa [invoke_breaker]
    · rintro (hhalf | ⟨hopen, -⟩)
      · exact absurd (hstate.symm.trans hhalf) (by decide)
      · exact absurd (hstate.symm.trans hopen) (by decide)
  · rw [if_pos hstate] at hprobes
    constructor
    · intro hsafe _
      have hone := hsafe.probes (by rw [invoke_breaker]; exact hstate)
      rw [hprobes] at hone
      exact hnone.mp hone
    · intro hmeets
      have hone := hnone.mpr (hmeets (.inl hstate))
      refine ⟨fun _ _ _ _ hopen => ?_, fun _ => hprobes.trans_le hone, fun _ hclosed => ?_, ?_⟩
      · exact absurd (hstate.symm.trans hopen) (by decide)
      · rw [invoke_breaker] at hclosed
        exact absurd (hstate.symm.trans hclosed) (by decide)
      · rwa [invoke_breaker]
  · rw [if_pos rfl] at hprobes
    constructor
    · intro hsafe _
      have hone := hsafe.probes (by rw [invoke_breaker])
      rw [hprobes] at hone
      exact hnone.mp hone
    · intro hmeets
      have hone := hnone.mpr (hmeets (.inr ⟨hstate, hreset⟩))
      refine ⟨?_, fun _ => hprobes.trans_le hone, fun hhalf => ?_, ?_⟩
      · rintro id' now' later' hevent - -
        obtain ⟨last, hlast⟩ := Option.ne_none_iff_exists'.mp (h.counts.opened hstate)
        refine ⟨last, hlast, ?_⟩
        injection hevent with _ hnow _
        rw [AsyncCircuitBreaker.shouldAttemptReset, hlast] at hreset
        rw [← hnow]
        exact of_decide_eq_true hreset
      · exact absurd (hstate.symm.trans hhalf) (by decide)
      · rwa [invoke_breaker]

/-- A step is what the protocol says exactly when it meets the condition. -/
theorem safe_iff_meets (h : w.Inv) {event : Event} (hstep : Step w event w') :
    Safe w event w' ↔ Meets w event := by
  rcases step_cases hstep with ⟨id, now, later, rfl, hopen, hreset, rfl⟩ |
    ⟨id, now, later, breaker, rfl, -, henter, rfl⟩ | ⟨call, outcome, now, rfl, hcall, rfl⟩
  · refine iff_of_true ⟨fun _ _ _ _ _ hne => absurd rfl hne, fun _ => h.probes, fun hhalf => ?_,
      h.counts.failures⟩ ?_
    · exact absurd (hopen.symm.trans hhalf) (by decide)
    · rintro (hhalf | ⟨-, hattempt⟩)
      · exact absurd (hopen.symm.trans hhalf) (by decide)
      · exact absurd (hreset.symm.trans hattempt) (by decide)
  · exact safe_iff_meets_invoke h henter
  · exact safe_iff_meets_settle h hcall outcome now

/-- A result that leaves the breaker in `HALF_OPEN` came while it was. -/
theorem halfOpen_of_settle {call : Call} {outcome : AsyncCircuitBreaker.Outcome} {now : ℚ}
    (hhalf : (w.settle call outcome now).breaker.state = .halfOpen) :
    w.breaker.state = .halfOpen := by
  cases outcome with
  | returned =>
    by_contra hne
    have hstate : w.breaker.onSuccess.state = w.breaker.state := by
      rw [AsyncCircuitBreaker.onSuccess_of_ne hne]
    exact hne (hstate.symm.trans hhalf)
  | exception =>
    obtain ⟨state, hfailure, hstate⟩ := w.breaker.onFailure_cases now
    have hhalf' : (w.breaker.onFailure now).state = .halfOpen := hhalf
    rw [hfailure] at hhalf'
    rcases hstate with rfl | ⟨rfl, -⟩
    · exact absurd hhalf' (by simp)
    · exact absurd hhalf' (by simp)
  | openError => exact hhalf
  | baseException => exact hhalf

/-- An outcome keeps the invariant. -/
theorem Inv.settle (h : w.Inv) (call : Call) (outcome : AsyncCircuitBreaker.Outcome) (now : ℚ) :
    (w.settle call outcome now).Inv := by
  have hcfg : (w.settle call outcome now).breaker.cfg = w.breaker.cfg :=
    AsyncCircuitBreaker.record_cfg _ _ _
  refine ⟨?_, h.counts.record h.positive outcome now,
    (w.probes_settle call outcome now).trans h.probes, fun hhalf => ?_,
    h.ids.sublist (List.filter_sublist.map Call.id)⟩
  · rw [hcfg]
    exact h.positive
  · have hbefore := halfOpen_of_settle hhalf
    have hlength := h.successes hbefore
    cases outcome with
    | returned =>
      have hmore : ¬ w.breaker.cfg.successThreshold ≤ w.breaker.successCount + 1 := by
        intro henough
        have hclosed : w.breaker.onSuccess.state = .closed := by
          rw [AsyncCircuitBreaker.onSuccess_closes hbefore henough]
        exact absurd (hhalf.symm.trans hclosed) (by decide)
      have hcount : w.breaker.onSuccess.successCount = w.breaker.successCount + 1 := by
        rw [AsyncCircuitBreaker.onSuccess_counts hbefore hmore]
      have hcons : (call :: w.successes).length = w.breaker.successCount + 1 := by
        rw [List.length_cons, hlength]
      exact hcons.trans hcount.symm
    | exception =>
      obtain ⟨state, hfailure, -⟩ := w.breaker.onFailure_cases now
      have hcount : (w.breaker.onFailure now).successCount = 0 := by rw [hfailure]
      exact hcount.symm
    | openError => exact hlength
    | baseException => exact hlength

/-- A call under its condition keeps the invariant. -/
theorem Inv.invoke (h : w.Inv) {id : ℕ} {now later : ℚ} {breaker : AsyncCircuitBreaker}
    (hfresh : id ∉ w.inFlight.map Call.id) (henter : w.breaker.enter now later = .ok breaker)
    (hmeets : Meets w (.call id now later)) : (w.invoke id breaker).Inv := by
  obtain ⟨call, hid, -, hcalls⟩ := w.invoke_inFlight id breaker
  have hids : ((w.invoke id breaker).inFlight.map Call.id).Nodup := by
    rw [hcalls, List.map_cons, hid]
    exact List.nodup_cons.mpr ⟨hfresh, h.ids⟩
  have hcounts : (w.invoke id breaker).breaker.Counts := by
    rw [invoke_breaker]
    exact h.counts.enter henter
  have hprobes := w.probes_invoke id breaker
  have hpositive := h.positive
  rcases enter_cases henter with ⟨hstate, rfl⟩ | ⟨hstate, rfl⟩ | ⟨hstate, hreset, rfl⟩
  · refine ⟨by rwa [invoke_breaker], hcounts, ?_, fun hhalf => ?_, hids⟩
    · rw [hprobes, if_neg (by rw [hstate]; decide)]
      exact h.probes
    · rw [invoke_breaker] at hhalf
      exact absurd (hstate.symm.trans hhalf) (by decide)
  · refine ⟨by rwa [invoke_breaker], hcounts, ?_, fun _ => ?_, hids⟩
    · rw [hprobes, if_pos hstate, hmeets (.inl hstate)]
      exact le_rfl
    · have hsame : (w.invoke id w.breaker).successes = w.successes := by
        unfold World.invoke
        rw [if_pos hstate, if_pos hstate]
      rw [hsame, invoke_breaker]
      exact h.successes hstate
  · refine ⟨by rwa [invoke_breaker], hcounts, ?_, fun _ => ?_, hids⟩
    · rw [hprobes, if_pos rfl, hmeets (.inr ⟨hstate, hreset⟩)]
      exact le_rfl
    · have hne : w.breaker.state ≠ .halfOpen := by
        rw [hstate]
        decide
      have hnil : (w.invoke id { w.breaker with state := .halfOpen }).successes = [] := by
        unfold World.invoke
        rw [if_pos rfl, if_neg hne]
      rw [hnil, invoke_breaker]
      exact (h.counts.successes hne).symm

/-- A step under its condition keeps the invariant. -/
theorem Inv.next (h : w.Inv) {event : Event} (hstep : Step w event w') (hmeets : Meets w event) :
    w'.Inv := by
  rcases step_cases hstep with ⟨-, -, -, -, -, -, rfl⟩ |
    ⟨id, now, later, breaker, rfl, hfresh, henter, rfl⟩ | ⟨call, outcome, now, rfl, -, rfl⟩
  · exact h
  · exact h.invoke hfresh henter hmeets
  · exact h.settle call outcome now

/-- The invariant holds at the start. -/
theorem inv_init {name : String} {cfg : CircuitBreakerConfig} (h : 0 < cfg.failureThreshold) :
    (init name cfg).Inv := by
  refine ⟨h, ⟨fun hopen => ?_, fun _ => rfl, .inl rfl, fun _ => h⟩, ?_,
    fun _ => rfl, List.nodup_nil⟩
  · have hclosed : (init name cfg).breaker.state = .closed := rfl
    exact absurd (hclosed.symm.trans hopen) (by decide)
  · exact Nat.zero_le 1

/-! ### Runs -/

/-- A run in which the new breaker and every step are what the protocol says. -/
def SafeRun (name : String) (cfg : CircuitBreakerConfig) (events : List Event) (w : World) : Prop :=
  ((init name cfg).breaker.failureCount : ℤ) < cfg.failureThreshold ∧
    Effect.Runs (fun w event w' => Step w event w' ∧ Safe w event w') (init name cfg) events w

/-- A run in which every step meets the condition, and the breaker opens after some failure only. -/
def MeetsRun (name : String) (cfg : CircuitBreakerConfig) (events : List Event) (w : World) : Prop :=
  0 < cfg.failureThreshold ∧
    Effect.Runs (fun w event w' => Step w event w' ∧ Meets w event) (init name cfg) events w

/-- The circuit breaker protocol, for every interleaving of calls. -/
theorem safeRun_iff_meetsRun (name : String) (cfg : CircuitBreakerConfig) (events : List Event)
    (w : World) : SafeRun name cfg events w ↔ MeetsRun name cfg events w := by
  refine and_congr_right fun hpositive => ?_
  exact Effect.Runs.iff_of_invariant (inv_init hpositive)
    (fun _ _ _ h hstep => safe_iff_meets h hstep) (fun _ _ _ h hstep hmeets => h.next hstep hmeets)

/-- Opens after one failure, closes after two successes. -/
def oneFailure : CircuitBreakerConfig where
  failureThreshold := 1
  timeoutSeconds := 10

/-- A failure, and a probe after the timeout. -/
def oneProbe : List Event := [.call 0 0 0, .finish 0 .exception 0, .call 1 10 10]

/-- Three calls before the failure; two of them succeed while a probe is under way. -/
def lateSuccesses : List Event :=
  [.call 0 0 0, .call 1 0 0, .call 2 0 0, .finish 0 .exception 0, .call 3 10 10,
    .finish 1 .returned 11]

/-- Two probes are in flight at a time, and calls from before the failure close the breaker. -/
theorem not_safeRun :
    ((∃ w, Effect.Runs Step (init "external-api" oneFailure) (oneProbe ++ [Event.call 2 10 10]) w) ∧
      ¬ ∃ w, SafeRun "external-api" oneFailure (oneProbe ++ [Event.call 2 10 10]) w) ∧
    (∃ w, Effect.Runs Step (init "external-api" oneFailure)
        (lateSuccesses ++ [Event.finish 2 .returned 12]) w) ∧
      ¬ ∃ w, SafeRun "external-api" oneFailure
        (lateSuccesses ++ [Event.finish 2 .returned 12]) w := by
  have hprobes : ((oneProbe ++ [Event.call 2 10 10]).foldlM next
      (init "external-api" oneFailure)).map (fun w => (w.breaker.state, w.probes.length)) =
        some (.halfOpen, 2) := by decide +kernel
  have hclosed : ((lateSuccesses ++ [Event.finish 2 .returned 12]).foldlM next
      (init "external-api" oneFailure)).map
      (fun w => (w.breaker.state, w.breaker.cfg.successThreshold, w.ownSuccesses.length)) =
        some (.closed, 2, 0) := by decide +kernel
  refine ⟨⟨?_, ?_⟩, ?_, ?_⟩
  · obtain ⟨w, hw, -⟩ := Option.map_eq_some_iff.mp hprobes
    exact ⟨w, Effect.Runs.of_foldlM hw⟩
  · rintro ⟨w, -, hrun⟩
    have hw : (oneProbe ++ [Event.call 2 10 10]).foldlM next
        (init "external-api" oneFailure) = some w := hrun.foldlM_eq fun _ _ _ h => h.1
    rw [hw, Option.map_some, Option.some.injEq, Prod.mk.injEq] at hprobes
    obtain ⟨before, -, -, hsafe⟩ := hrun.last
    have hone := hsafe.probes hprobes.1
    omega
  · obtain ⟨w, hw, -⟩ := Option.map_eq_some_iff.mp hclosed
    exact ⟨w, Effect.Runs.of_foldlM hw⟩
  · rintro ⟨w, -, hrun⟩
    have hw : (lateSuccesses ++ [Event.finish 2 .returned 12]).foldlM next
        (init "external-api" oneFailure) = some w := hrun.foldlM_eq fun _ _ _ h => h.1
    obtain ⟨before, hfront, -, hsafe⟩ := hrun.last
    have hbefore : lateSuccesses.foldlM next (init "external-api" oneFailure) = some before :=
      hfront.foldlM_eq fun _ _ _ h => h.1
    have hhalf : (lateSuccesses.foldlM next (init "external-api" oneFailure)).map
        (fun w => w.breaker.state) = some .halfOpen := by decide +kernel
    rw [hbefore, Option.map_some, Option.some.injEq] at hhalf
    rw [hw, Option.map_some, Option.some.injEq, Prod.mk.injEq, Prod.mk.injEq] at hclosed
    have hmany := hsafe.closes hhalf hclosed.1
    omega

end World

end AgoraEtl.CircuitBreaker
