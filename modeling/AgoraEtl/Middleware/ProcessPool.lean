import AgoraEtl.Effect.Runs
import Mathlib.Data.List.Nodup

/-!
# Generations of a process pool

A `ProcessBatchMiddleware` keeps one pool of worker processes. A timed-out batch recycles the pool
and a cancellation or an abort drops it; either one ends a *generation*, and the batches that were
submitted to it must not return a result any more.

The middleware runs in one event loop, so each piece of its code between two suspension points is
one step: the start of `process_batch` up to the submission, its continuation when the awaited
future wakes it up, a cancellation request, and an abort.
-/

namespace AgoraEtl.ProcessPool

/-! ### Batches and errors -/

/-- The cause of a `ProcessBatchError`. -/
inductive Cause where
  | timeout
  | runnerClosed
  | worker (message : String)
  | invalidatedDueTo (generation : ℕ) (reason : String)
  deriving DecidableEq

/-- What `process_batch` raises. `unavailable` is the error of a pool that cannot be opened,
`codec` that of a batch that cannot be encoded or decoded. -/
inductive ProcessError where
  | notStarted (name : String)
  | codec (name : String)
  | unavailable (name : String)
  | batch (name : String) (batchIndex : ℕ) (cause : Cause) (timedOut invalidated : Bool)
      (generation : Option ℕ)
  deriving DecidableEq

/-- How a call of `process_batch` ended. -/
inductive CallOutcome (V : Type) where
  | returned (result : V)
  | failed (error : ProcessError)
  | cancelled
  deriving DecidableEq

/-- A call of `process_batch` that submitted its batch, or tried to. -/
structure BatchCall (V : Type) where
  runner : ℕ
  generation : ℕ
  batchIndex : ℕ
  cancelRequested : Bool
  outcome : Option (CallOutcome V)
  deriving DecidableEq

/-- What wakes a waiting call up. -/
inductive Wakeup (V : Type) where
  | result (value : V)
  | decodeFailed
  | workerRaised (message : String)
  | timedOut
  | cancelled
  deriving DecidableEq

/-- The middleware with its calls. Runners are numbered in the order in which they were made, and
`closed` holds their `_closed` flags; `recycled` are the generations that the log calls recycled. -/
structure Middleware (V : Type) where
  name : String
  closed : List Bool
  runner : Option ℕ
  runnerGeneration : ℕ
  invalidatedGenerations : List (ℕ × String)
  generationTasks : List (ℕ × ℕ)
  batchIndex : ℕ
  calls : List (BatchCall V)
  recycled : List ℕ
  deriving DecidableEq

namespace Middleware

variable {V : Type}

/-- The state after `on_start`. -/
def started (name : String) : Middleware V where
  name := name
  closed := [false]
  runner := some 0
  runnerGeneration := 0
  invalidatedGenerations := []
  generationTasks := []
  batchIndex := 0
  calls := []
  recycled := []

/-- `ProcessPoolRunner.close(wait=False, force=True)`. -/
def closeRunner (s : Middleware V) (runner : ℕ) : Middleware V :=
  { s with closed := s.closed.set runner true }

/-- `_open_runner`. A runner whose pool cannot be opened is closed, and its error is raised. -/
def openRunner (s : Middleware V) (opens : Bool) : Middleware V × Except ProcessError ℕ :=
  ({ s with closed := s.closed ++ [!opens] },
    if opens then .ok s.closed.length else .error (.unavailable s.name))

/-- Sets the cancellation flag of a call that still waits. -/
def requestCancel (s : Middleware V) (call : ℕ) : Middleware V :=
  { s with calls := s.calls.modify call fun c =>
      if c.outcome.isNone then { c with cancelRequested := true } else c }

/-- `_cancel_generation_tasks`; `except` is the current task where it is left out. -/
def cancelGenerationTasks (s : Middleware V) (generation : ℕ) (spared : Option ℕ) : Middleware V :=
  (s.generationTasks.filter fun task => task.1 = generation && spared ≠ some task.2).foldl
    (fun s task => s.requestCancel task.2) s

/-- `_register_generation_task`. -/
def registerGenerationTask (s : Middleware V) (generation call : ℕ) : Middleware V :=
  { s with generationTasks := s.generationTasks ++ [(generation, call)] }

/-- `_unregister_generation_task`. -/
def unregisterGenerationTask (s : Middleware V) (generation call : ℕ) : Middleware V :=
  { s with generationTasks := s.generationTasks.filter fun task => task ≠ (generation, call) }

/-- The entry of a generation in `_invalidated_generations`. -/
def invalidation (s : Middleware V) (generation : ℕ) : Option String :=
  s.invalidatedGenerations.lookup generation

/-- `_invalidated_generations[generation] = reason`. -/
def invalidate (s : Middleware V) (generation : ℕ) (reason : String) : Middleware V :=
  { s with invalidatedGenerations := (generation, reason) :: s.invalidatedGenerations }

/-- `_recycle_runner`, called from the task of `call`. -/
def recycleRunner (s : Middleware V) (call : ℕ) (reason : String) (generation : ℕ)
    (opens : Bool) : Middleware V × Except ProcessError Unit :=
  match s.runner with
  | none => (s, .ok ())
  | some oldRunner =>
    if generation ≠ s.runnerGeneration then (s, .ok ())
    else
      let s := s.invalidate generation reason
      let s := { s with recycled := s.recycled ++ [generation] }
      let s := s.cancelGenerationTasks generation (some call)
      let s := s.closeRunner oldRunner
      let s := { s with runnerGeneration := s.runnerGeneration + 1 }
      match s.openRunner opens with
      | (s, .ok runner) => ({ s with runner := some runner }, .ok ())
      | (s, .error error) => (s, .error error)

/-- `_abort_runner`. -/
def abortRunner (s : Middleware V) (reason : String) : Middleware V :=
  match s.runner with
  | none => s
  | some oldRunner =>
    let generation := s.runnerGeneration
    let s := s.invalidate generation reason
    let s := s.cancelGenerationTasks generation none
    let s := s.closeRunner oldRunner
    { s with runner := none, runnerGeneration := s.runnerGeneration + 1 }

/-- `_require_live_runner`. -/
def requireLiveRunner (s : Middleware V) : Except ProcessError (ℕ × ℕ) :=
  match s.runner with
  | none => .error (.notStarted s.name)
  | some runner => .ok (runner, s.runnerGeneration)

/-- `_maybe_raise_invalidated_generation`. -/
def invalidatedError (s : Middleware V) (batchIndex generation : ℕ) : Option ProcessError :=
  (s.invalidation generation).map fun reason =>
    .batch s.name batchIndex (.invalidatedDueTo generation reason) false true (some generation)

/-- The call ends. -/
def finish (s : Middleware V) (call : ℕ) (outcome : CallOutcome V) : Middleware V :=
  { s with calls := s.calls.modify call fun c => { c with outcome := some outcome } }

/-- `process_batch` up to its first suspension: a batch goes to the current runner, if there is
one. A closed runner raises, and so does a batch that cannot be encoded. -/
def startBatch (s : Middleware V) (encodes : Bool) : Middleware V :=
  match s.requireLiveRunner with
  | .error _ => s
  | .ok (runner, generation) =>
    let call := s.calls.length
    let batchIndex := s.batchIndex
    let s := s.registerGenerationTask generation call
    let s := { s with
      batchIndex := batchIndex + 1
      calls := s.calls ++ [BatchCall.mk runner generation batchIndex false none] }
    if s.closed.getD runner true then
      (s.unregisterGenerationTask generation call).finish call
        (.failed (.batch s.name batchIndex .runnerClosed false false none))
    else if !encodes then
      (s.unregisterGenerationTask generation call).finish call (.failed (.codec s.name))
    else s

/-- `process_batch` from its suspension to its end. -/
def resumeBatch (s : Middleware V) (call : ℕ) (c : BatchCall V) (wakeup : Wakeup V)
    (opens : Bool) : Middleware V :=
  let unregister (s : Middleware V) := s.unregisterGenerationTask c.generation call
  match wakeup with
  | .result value =>
    match s.invalidatedError c.batchIndex c.generation with
    | some error => (unregister s).finish call (.failed error)
    | none => (unregister s).finish call (.returned value)
  | .cancelled =>
    match s.invalidatedError c.batchIndex c.generation with
    | some error => (unregister s).finish call (.failed error)
    | none => (unregister (s.abortRunner "cancellation")).finish call .cancelled
  | .decodeFailed => (unregister s).finish call (.failed (.codec s.name))
  | .timedOut =>
    match s.recycleRunner call "timeout" c.generation opens with
    | (s, .ok ()) =>
      (unregister s).finish call
        (.failed (.batch s.name c.batchIndex .timeout true false none))
    | (s, .error error) => (unregister s).finish call (.failed error)
  | .workerRaised message =>
    match s.invalidatedError c.batchIndex c.generation with
    | some error => (unregister s).finish call (.failed error)
    | none =>
      (unregister s).finish call
        (.failed (.batch s.name c.batchIndex (.worker message) false false (some c.generation)))

end Middleware

/-! ### Steps -/

/-- The steps of the event loop that concern the middleware. `opens` tells whether the operating
system grants a new pool. -/
inductive Label (V : Type) where
  | start (encodes : Bool)
  | resume (call : ℕ) (wakeup : Wakeup V) (opens : Bool)
  | cancel (call : ℕ)
  | abort (reason : String)

/-- One step. A call is woken up once, and by a cancellation only if one was requested. -/
inductive Step {V : Type} (s : Middleware V) : Label V → Middleware V → Prop where
  | start (encodes : Bool) : Step s (.start encodes) (s.startBatch encodes)
  | resume {c : BatchCall V} (call : ℕ) (wakeup : Wakeup V) (opens : Bool)
      (found : s.calls[call]? = some c) (waiting : c.outcome = none)
      (requested : wakeup = .cancelled → c.cancelRequested = true) :
      Step s (.resume call wakeup opens) (s.resumeBatch call c wakeup opens)
  | cancel (call : ℕ) : Step s (.cancel call) (s.requestCancel call)
  | abort (reason : String) : Step s (.abort reason) (s.abortRunner reason)

/-! ### What a step does to the generations -/

namespace Middleware

variable {V : Type} {s s' s'' : Middleware V}

/-- The generation goes on. -/
structure SameGeneration (s s' : Middleware V) : Prop where
  closed : s'.closed = s.closed
  runner : s'.runner = s.runner
  runnerGeneration : s'.runnerGeneration = s.runnerGeneration
  invalidatedGenerations : s'.invalidatedGenerations = s.invalidatedGenerations
  recycled : s'.recycled = s.recycled

/-- The generation ends: it is invalidated and its runner closed. Either the pool is recycled, and a
new runner made, or it is dropped. -/
structure EndsGeneration (s s' : Middleware V) : Prop where
  oldRunner : ∃ runner, s.runner = some runner ∧
    ((s'.recycled = s.recycled ++ [s.runnerGeneration] ∧
        ∃ opens, s'.closed = s.closed.set runner true ++ [!opens] ∧
          s'.runner = some (if opens then s.closed.length else runner)) ∨
      (s'.recycled = s.recycled ∧ s'.closed = s.closed.set runner true ∧ s'.runner = none))
  runnerGeneration : s'.runnerGeneration = s.runnerGeneration + 1
  invalidated : ∃ reason,
    s'.invalidatedGenerations = (s.runnerGeneration, reason) :: s.invalidatedGenerations

/-- Doing nothing keeps the generation. -/
theorem SameGeneration.refl (s : Middleware V) : SameGeneration s s := ⟨rfl, rfl, rfl, rfl, rfl⟩

/-- Steps that keep the generation compose. -/
theorem SameGeneration.trans (h : SameGeneration s s') (h' : SameGeneration s' s'') :
    SameGeneration s s'' :=
  ⟨h'.closed.trans h.closed, h'.runner.trans h.runner,
    h'.runnerGeneration.trans h.runnerGeneration,
    h'.invalidatedGenerations.trans h.invalidatedGenerations, h'.recycled.trans h.recycled⟩

/-- What follows the end of a generation in the same step leaves the new one alone. -/
theorem EndsGeneration.trans (h : EndsGeneration s s') (h' : SameGeneration s' s'') :
    EndsGeneration s s'' := by
  obtain ⟨runner, hrunner, hcases⟩ := h.oldRunner
  obtain ⟨reason, hreason⟩ := h.invalidated
  refine ⟨⟨runner, hrunner, ?_⟩, h'.runnerGeneration.trans h.runnerGeneration, reason, ?_⟩
  · rw [h'.recycled, h'.closed, h'.runner]
    exact hcases
  · rw [h'.invalidatedGenerations]
    exact hreason

/-- A call keeps its generation and its outcome. -/
def KeepsCall (s s' : Middleware V) (call : ℕ) : Prop :=
  ∀ c, s.calls[call]? = some c →
    ∃ c', s'.calls[call]? = some c' ∧ c'.generation = c.generation ∧ c'.outcome = c.outcome

/-- Where the calls are the same, each of them is kept. -/
theorem KeepsCall.of_eq {call : ℕ} (h : s'.calls = s.calls) : KeepsCall s s' call := by
  intro c hc
  exact ⟨c, by rw [h]; exact hc, rfl, rfl⟩

/-- Steps that keep a call compose. -/
theorem KeepsCall.trans {call : ℕ} (h : KeepsCall s s' call) (h' : KeepsCall s' s'' call) :
    KeepsCall s s'' call := by
  intro c hc
  obtain ⟨c', hc', hgeneration, houtcome⟩ := h c hc
  obtain ⟨c'', hc'', hgeneration', houtcome'⟩ := h' c' hc'
  exact ⟨c'', hc'', hgeneration'.trans hgeneration, houtcome'.trans houtcome⟩

/-- Cancelling a call ends no generation. -/
theorem requestCancel_same (s : Middleware V) (call : ℕ) : SameGeneration s (s.requestCancel call) :=
  ⟨rfl, rfl, rfl, rfl, rfl⟩

/-- It leaves what the calls have come to. -/
theorem requestCancel_keeps (s : Middleware V) (call call' : ℕ) :
    KeepsCall s (s.requestCancel call) call' := by
  intro c hc
  have hget : (s.requestCancel call).calls[call']? = some (if call = call' then
      (if c.outcome.isNone then { c with cancelRequested := true } else c) else c) := by
    simp [requestCancel, List.getElem?_modify, hc]
  refine ⟨_, hget, ?_, ?_⟩
  · split_ifs <;> rfl
  · split_ifs <;> rfl

/-- Cancelling the tasks of a generation sets flags only. -/
theorem cancelGenerationTasks_spec (s : Middleware V) (generation : ℕ) (spared : Option ℕ) :
    SameGeneration s (s.cancelGenerationTasks generation spared) ∧
      ∀ call, KeepsCall s (s.cancelGenerationTasks generation spared) call := by
  unfold cancelGenerationTasks
  generalize s.generationTasks.filter _ = tasks
  induction tasks generalizing s with
  | nil => exact ⟨SameGeneration.refl s, fun call => KeepsCall.of_eq rfl⟩
  | cons task tasks ih =>
    obtain ⟨hsame, hkeeps⟩ := ih (s.requestCancel task.2)
    exact ⟨(requestCancel_same s task.2).trans hsame,
      fun call => (requestCancel_keeps s task.2 call).trans (hkeeps call)⟩

/-- An abort with a runner ends the generation. -/
theorem abortRunner_ends (reason : String) (hrunner : s.runner ≠ none) :
    EndsGeneration s (s.abortRunner reason) ∧ ∀ call, KeepsCall s (s.abortRunner reason) call := by
  obtain ⟨oldRunner, hrunner⟩ := Option.ne_none_iff_exists'.mp hrunner
  obtain ⟨hsame, hkeeps⟩ :=
    (s.invalidate s.runnerGeneration reason).cancelGenerationTasks_spec s.runnerGeneration none
  unfold abortRunner
  rw [hrunner]
  refine ⟨⟨⟨oldRunner, hrunner, .inr ⟨?_, ?_, rfl⟩⟩, ?_, reason, ?_⟩, fun call => ?_⟩
  · exact hsame.recycled
  · exact congrArg (List.set · oldRunner true) hsame.closed
  · exact congrArg (· + 1) hsame.runnerGeneration
  · exact hsame.invalidatedGenerations
  · exact hkeeps call

/-- An abort ends the generation if there is a runner. -/
theorem abortRunner_spec (s : Middleware V) (reason : String) :
    (SameGeneration s (s.abortRunner reason) ∨ EndsGeneration s (s.abortRunner reason)) ∧
      ∀ call, KeepsCall s (s.abortRunner reason) call := by
  cases hrunner : s.runner with
  | none =>
    have hnothing : s.abortRunner reason = s := by
      unfold abortRunner
      rw [hrunner]
    rw [hnothing]
    exact ⟨.inl (.refl s), fun call => KeepsCall.of_eq rfl⟩
  | some oldRunner =>
    obtain ⟨hends, hkeeps⟩ := abortRunner_ends reason (by simp [hrunner] : s.runner ≠ none)
    exact ⟨.inr hends, hkeeps⟩

/-- Recycling the current generation ends it. -/
theorem recycleRunner_ends (call : ℕ) (reason : String) (opens : Bool) (hrunner : s.runner ≠ none) :
    EndsGeneration s (s.recycleRunner call reason s.runnerGeneration opens).1 ∧
      ∀ call', KeepsCall s (s.recycleRunner call reason s.runnerGeneration opens).1 call' := by
  obtain ⟨oldRunner, hrunner⟩ := Option.ne_none_iff_exists'.mp hrunner
  obtain ⟨hsame, hkeeps⟩ := Middleware.cancelGenerationTasks_spec
    { s.invalidate s.runnerGeneration reason with recycled := s.recycled ++ [s.runnerGeneration] }
    s.runnerGeneration (some call)
  have hlength := congrArg List.length hsame.closed
  have hcurrent : ¬ s.runnerGeneration ≠ s.runnerGeneration := not_not.mpr rfl
  unfold recycleRunner
  rw [hrunner]
  simp only [if_neg hcurrent]
  cases opens with
  | true =>
    refine ⟨⟨⟨oldRunner, hrunner, .inl ⟨hsame.recycled, true, ?_, ?_⟩⟩, ?_, reason, ?_⟩,
      fun call' => hkeeps call'⟩
    · exact congrArg (fun closed => closed.set oldRunner true ++ [false]) hsame.closed
    · exact congrArg some ((List.length_set ..).trans hlength)
    · exact congrArg (· + 1) hsame.runnerGeneration
    · exact hsame.invalidatedGenerations
  | false =>
    refine ⟨⟨⟨oldRunner, hrunner, .inl ⟨hsame.recycled, false, ?_, ?_⟩⟩, ?_, reason, ?_⟩,
      fun call' => hkeeps call'⟩
    · exact congrArg (fun closed => closed.set oldRunner true ++ [true]) hsame.closed
    · exact hsame.runner.trans hrunner
    · exact congrArg (· + 1) hsame.runnerGeneration
    · exact hsame.invalidatedGenerations

/-- Recycling ends the generation it is called for, if that one still runs. -/
theorem recycleRunner_spec (s : Middleware V) (call : ℕ) (reason : String) (generation : ℕ)
    (opens : Bool) :
    (SameGeneration s (s.recycleRunner call reason generation opens).1 ∨
        EndsGeneration s (s.recycleRunner call reason generation opens).1) ∧
      ∀ call', KeepsCall s (s.recycleRunner call reason generation opens).1 call' := by
  by_cases hlive : s.runner ≠ none ∧ generation = s.runnerGeneration
  · obtain ⟨hrunner, rfl⟩ := hlive
    obtain ⟨hends, hkeeps⟩ := recycleRunner_ends call reason opens hrunner
    exact ⟨.inr hends, hkeeps⟩
  · have hnothing : (s.recycleRunner call reason generation opens).1 = s := by
      unfold recycleRunner
      cases hrunner : s.runner with
      | none => rfl
      | some oldRunner =>
        have hother : generation ≠ s.runnerGeneration := fun heq => hlive ⟨by simp [hrunner], heq⟩
        simp only [if_pos hother]
    rw [hnothing]
    exact ⟨.inl (.refl s), fun call' => KeepsCall.of_eq rfl⟩

/-- A call that has ended, or that is not the one which ends, is kept. -/
theorem finish_keeps {call call' : ℕ} (hcall : call ≠ call') (outcome : CallOutcome V) :
    KeepsCall s (s.finish call outcome) call' := by
  intro c hc
  exact ⟨c, by simp [finish, hcall, hc], rfl, rfl⟩

/-- A call that is finished has the outcome. -/
theorem finish_get {call : ℕ} {c : BatchCall V} (hc : s.calls[call]? = some c)
    (outcome : CallOutcome V) :
    (s.finish call outcome).calls[call]? = some { c with outcome := some outcome } := by
  simp [finish, hc]

/-- A submission leaves the generation and the earlier calls alone. -/
theorem startBatch_spec (s : Middleware V) (encodes : Bool) :
    SameGeneration s (s.startBatch encodes) ∧
      ∀ call, call < s.calls.length → KeepsCall s (s.startBatch encodes) call := by
  unfold startBatch
  cases hrunner : s.requireLiveRunner with
  | error error => exact ⟨.refl s, fun call _ => KeepsCall.of_eq rfl⟩
  | ok live =>
    have happend : ∀ (c : BatchCall V) (call : ℕ), call < s.calls.length →
        (s.calls ++ [c])[call]? = s.calls[call]? := fun c call hlt =>
      List.getElem?_append_left hlt
    have hmodify : ∀ (c : BatchCall V) (outcome : CallOutcome V) (call : ℕ),
        call < s.calls.length →
        ((s.calls ++ [c]).modify s.calls.length fun c => { c with outcome := some outcome })[call]? =
          s.calls[call]? := fun c outcome call hlt => by
      have hne : s.calls.length ≠ call := by omega
      rw [List.getElem?_modify, happend c call hlt]
      simp [hne]
    dsimp only
    split
    · refine ⟨⟨rfl, rfl, rfl, rfl, rfl⟩, fun call hlt c hc => ⟨c, ?_, rfl, rfl⟩⟩
      exact (hmodify _ _ call hlt).trans hc
    · split
      · refine ⟨⟨rfl, rfl, rfl, rfl, rfl⟩, fun call hlt c hc => ⟨c, ?_, rfl, rfl⟩⟩
        exact (hmodify _ _ call hlt).trans hc
      · refine ⟨⟨rfl, rfl, rfl, rfl, rfl⟩, fun call hlt c hc => ⟨c, ?_, rfl, rfl⟩⟩
        exact (happend _ call hlt).trans hc

/-- A call that is woken up ends. It returns a result only where its generation is valid, and then
nothing but the call changes. -/
theorem resumeBatch_spec (s : Middleware V) (call : ℕ) (c : BatchCall V) (wakeup : Wakeup V)
    (opens : Bool) :
    ∃ s₁ outcome, s.resumeBatch call c wakeup opens = s₁.finish call outcome ∧
      (SameGeneration s s₁ ∨ EndsGeneration s s₁) ∧ (∀ call', KeepsCall s s₁ call') ∧
      ((∃ result, outcome = .returned result) → s.invalidation c.generation = none) := by
  have hunregister : ∀ s : Middleware V,
      SameGeneration s (s.unregisterGenerationTask c.generation call) :=
    fun s => ⟨rfl, rfl, rfl, rfl, rfl⟩
  have hinvalid : ∀ outcome, s.invalidatedError c.batchIndex c.generation = none →
      ((∃ result : V, outcome = CallOutcome.returned result) →
        s.invalidation c.generation = none) := fun outcome hnone _ =>
    Option.map_eq_none_iff.mp hnone
  unfold resumeBatch
  cases wakeup with
  | result value =>
    dsimp only
    cases herror : s.invalidatedError c.batchIndex c.generation with
    | some error =>
      exact ⟨_, _, rfl, .inl (hunregister s), fun call' => KeepsCall.of_eq rfl, by simp⟩
    | none =>
      exact ⟨_, _, rfl, .inl (hunregister s), fun call' => KeepsCall.of_eq rfl, hinvalid _ herror⟩
  | cancelled =>
    dsimp only
    cases herror : s.invalidatedError c.batchIndex c.generation with
    | some error =>
      exact ⟨_, _, rfl, .inl (hunregister s), fun call' => KeepsCall.of_eq rfl, by simp⟩
    | none =>
      obtain ⟨hgeneration, hkeeps⟩ := s.abortRunner_spec "cancellation"
      refine ⟨_, _, rfl, ?_, fun call' => hkeeps call', by simp⟩
      rcases hgeneration with hsame | hends
      · exact .inl (hsame.trans (hunregister _))
      · exact .inr (hends.trans (hunregister _))
  | decodeFailed =>
    exact ⟨_, _, rfl, .inl (hunregister s), fun call' => KeepsCall.of_eq rfl, by simp⟩
  | timedOut =>
    dsimp only
    have hspec := s.recycleRunner_spec call "timeout" c.generation opens
    cases hrecycle : s.recycleRunner call "timeout" c.generation opens with
    | mk s₁ raised =>
      rw [hrecycle] at hspec
      obtain ⟨hgeneration, hkeeps⟩ := hspec
      have hfinal : SameGeneration s (s₁.unregisterGenerationTask c.generation call) ∨
          EndsGeneration s (s₁.unregisterGenerationTask c.generation call) := by
        rcases hgeneration with hsame | hends
        · exact .inl (hsame.trans (hunregister _))
        · exact .inr (hends.trans (hunregister _))
      cases raised with
      | ok _ => exact ⟨_, _, rfl, hfinal, fun call' => hkeeps call', by simp⟩
      | error error => exact ⟨_, _, rfl, hfinal, fun call' => hkeeps call', by simp⟩
  | workerRaised message =>
    dsimp only
    cases herror : s.invalidatedError c.batchIndex c.generation with
    | some error =>
      exact ⟨_, _, rfl, .inl (hunregister s), fun call' => KeepsCall.of_eq rfl, by simp⟩
    | none =>
      exact ⟨_, _, rfl, .inl (hunregister s), fun call' => KeepsCall.of_eq rfl, by simp⟩

/-- A step either lets the generation go on or ends it. -/
theorem step_generation {label : Label V} (h : Step s label s') :
    SameGeneration s s' ∨ EndsGeneration s s' := by
  cases h with
  | start encodes => exact .inl (s.startBatch_spec encodes).1
  | resume call wakeup opens found waiting requested =>
    obtain ⟨s₁, outcome, heq, hgeneration, -, -⟩ := s.resumeBatch_spec _ _ _ opens
    rw [heq]
    have hfinish : ∀ call, SameGeneration s₁ (s₁.finish call outcome) :=
      fun call => ⟨rfl, rfl, rfl, rfl, rfl⟩
    rcases hgeneration with hsame | hends
    · exact .inl (hsame.trans (hfinish _))
    · exact .inr (hends.trans (hfinish _))
  | cancel call => exact .inl (s.requestCancel_same call)
  | abort reason => exact (s.abortRunner_spec reason).1

/-- A step keeps a call, or the call waited and ends; it returns a result only where its generation
is valid. -/
theorem step_call {label : Label V} (h : Step s label s') {call : ℕ} {c : BatchCall V}
    (hc : s.calls[call]? = some c) :
    ∃ c', s'.calls[call]? = some c' ∧ c'.generation = c.generation ∧
      (c'.outcome = c.outcome ∨ c.outcome = none ∧
        ((∃ result, c'.outcome = some (.returned result)) → s.invalidation c.generation = none)) := by
  have hkept : KeepsCall s s' call → ∃ c', s'.calls[call]? = some c' ∧
      c'.generation = c.generation ∧ (c'.outcome = c.outcome ∨ c.outcome = none ∧
        ((∃ result, c'.outcome = some (.returned result)) →
          s.invalidation c.generation = none)) := by
    intro hkeeps
    obtain ⟨c', hc', hgeneration, houtcome⟩ := hkeeps c hc
    exact ⟨c', hc', hgeneration, .inl houtcome⟩
  have hlt : call < s.calls.length := (List.getElem?_eq_some_iff.mp hc).1
  cases h with
  | start encodes => exact hkept ((s.startBatch_spec encodes).2 call hlt)
  | @resume c₀ woken wakeup opens found waiting requested =>
    obtain ⟨s₁, outcome, heq, -, hkeeps, hreturned⟩ := s.resumeBatch_spec woken c₀ wakeup opens
    rw [heq] at hkept ⊢
    by_cases hwoken : woken = call
    · subst hwoken
      obtain rfl : c₀ = c := Option.some.inj (found.symm.trans hc)
      obtain ⟨c₁, hc₁, hgeneration, -⟩ := hkeeps woken c₀ hc
      refine ⟨_, finish_get hc₁ outcome, hgeneration, .inr ⟨waiting, ?_⟩⟩
      rintro ⟨result, hresult⟩
      exact hreturned ⟨result, Option.some.inj hresult⟩
    · exact hkept ((hkeeps call).trans (finish_keeps hwoken outcome))
  | cancel call' => exact hkept (s.requestCancel_keeps call' call)
  | abort reason => exact hkept ((s.abortRunner_spec reason).2 call)

/-- The generations that the calls were submitted to. -/
def callGenerations (s : Middleware V) : List ℕ := s.calls.map BatchCall.generation

/-- The generation of a call is one of those. -/
theorem mem_callGenerations {call : ℕ} {c : BatchCall V} (hc : s.calls[call]? = some c) :
    c.generation ∈ s.callGenerations :=
  List.mem_map_of_mem (List.mem_of_getElem? hc)

/-- Changing the flag or the outcome of a call leaves the generations alone. -/
theorem map_generation_modify (calls : List (BatchCall V)) (call : ℕ)
    {f : BatchCall V → BatchCall V} (hf : ∀ c, (f c).generation = c.generation) :
    (calls.modify call f).map BatchCall.generation = calls.map BatchCall.generation := by
  induction calls generalizing call with
  | nil => cases call <;> rfl
  | cons c calls ih =>
    cases call with
    | zero => exact congrArg (· :: calls.map BatchCall.generation) (hf c)
    | succ call => exact congrArg (c.generation :: ·) (ih call)

/-- Finishing a call changes no generation. -/
@[simp] theorem callGenerations_finish (s : Middleware V) (call : ℕ) (outcome : CallOutcome V) :
    (s.finish call outcome).callGenerations = s.callGenerations :=
  map_generation_modify s.calls call fun _ => rfl

/-- Nor does cancelling it. -/
@[simp] theorem callGenerations_requestCancel (s : Middleware V) (call : ℕ) :
    (s.requestCancel call).callGenerations = s.callGenerations :=
  map_generation_modify s.calls call fun c => by split_ifs <;> rfl

/-- Nor does unregistering its task. -/
@[simp] theorem callGenerations_unregisterGenerationTask (s : Middleware V) (generation call : ℕ) :
    (s.unregisterGenerationTask generation call).callGenerations = s.callGenerations := rfl

/-- Nor does cancelling the tasks of a generation. -/
@[simp] theorem callGenerations_cancelGenerationTasks (s : Middleware V) (generation : ℕ)
    (spared : Option ℕ) :
    (s.cancelGenerationTasks generation spared).callGenerations = s.callGenerations := by
  unfold cancelGenerationTasks
  generalize s.generationTasks.filter _ = tasks
  induction tasks generalizing s with
  | nil => rfl
  | cons task tasks ih => exact (ih _).trans (s.callGenerations_requestCancel task.2)

/-- Nor does aborting the runner. -/
@[simp] theorem callGenerations_abortRunner (s : Middleware V) (reason : String) :
    (s.abortRunner reason).callGenerations = s.callGenerations := by
  unfold abortRunner
  cases s.runner with
  | none => rfl
  | some oldRunner => exact callGenerations_cancelGenerationTasks _ _ _

/-- Nor does recycling it. -/
@[simp] theorem callGenerations_recycleRunner (s : Middleware V) (call : ℕ) (reason : String)
    (generation : ℕ) (opens : Bool) :
    (s.recycleRunner call reason generation opens).1.callGenerations = s.callGenerations := by
  unfold recycleRunner
  cases s.runner with
  | none => rfl
  | some oldRunner =>
    by_cases hother : generation ≠ s.runnerGeneration
    · simp only [if_pos hother]
    · simp only [if_neg hother]
      cases opens <;> exact callGenerations_cancelGenerationTasks _ _ _

/-- Nor does resuming a batch. -/
@[simp] theorem callGenerations_resumeBatch (s : Middleware V) (call : ℕ) (c : BatchCall V)
    (wakeup : Wakeup V) (opens : Bool) :
    (s.resumeBatch call c wakeup opens).callGenerations = s.callGenerations := by
  unfold resumeBatch
  cases wakeup with
  | decodeFailed => simp
  | timedOut =>
    have hrecycle := s.callGenerations_recycleRunner call "timeout" c.generation opens
    dsimp only
    cases hrun : s.recycleRunner call "timeout" c.generation opens with
    | mk s₁ raised =>
      rw [hrun] at hrecycle
      cases raised <;> simpa using hrecycle
  | result value => cases s.invalidatedError c.batchIndex c.generation <;> simp
  | cancelled => cases s.invalidatedError c.batchIndex c.generation <;> simp
  | workerRaised message => cases s.invalidatedError c.batchIndex c.generation <;> simp

/-- A submission adds a call of the current generation, if there is a runner. -/
theorem callGenerations_startBatch (s : Middleware V) (encodes : Bool) :
    (s.startBatch encodes).callGenerations = s.callGenerations ∨
      s.runner ≠ none ∧
        (s.startBatch encodes).callGenerations = s.callGenerations ++ [s.runnerGeneration] := by
  unfold startBatch requireLiveRunner
  cases hrunner : s.runner with
  | none => exact .inl rfl
  | some runner =>
    refine .inr ⟨by simp, ?_⟩
    have happend : ∀ c : BatchCall V, (s.calls ++ [c]).map BatchCall.generation =
        s.callGenerations ++ [c.generation] := fun c => List.map_append
    dsimp only
    split
    · rw [callGenerations_finish]
      exact happend _
    · split
      · rw [callGenerations_finish]
        exact happend _
      · exact happend _

/-! ### The generations along a run -/

/-- A generation is marked in `_invalidated_generations`. -/
def Invalidated (s : Middleware V) (generation : ℕ) : Prop :=
  s.invalidation generation ≠ none

instance (s : Middleware V) (generation : ℕ) : Decidable (s.Invalidated generation) :=
  inferInstanceAs (Decidable (s.invalidation generation ≠ none))

/-- A call has returned its result. -/
def Returned (s : Middleware V) (call : ℕ) : Prop :=
  ∃ c result, s.calls[call]? = some c ∧ c.outcome = some (.returned result)

/-- The runner, the generation counter and the table of invalidations are in step. -/
structure InStep (s : Middleware V) : Prop where
  below : ∀ generation < s.runnerGeneration, s.Invalidated generation
  recycled_below : ∀ generation ∈ s.recycled, generation < s.runnerGeneration
  recycled_nodup : s.recycled.Nodup
  live : ∀ runner, s.closed[runner]? = some false → s.runner = some runner
  made : ∀ runner, s.runner = some runner → runner < s.closed.length

/-- A middleware that has started is in step. -/
theorem inStep_started (name : String) : (started name : Middleware V).InStep where
  below := by simp [started]
  recycled_below := by simp [started]
  recycled_nodup := List.nodup_nil
  live := by
    intro runner hlive
    have hlt := (List.getElem?_eq_some_iff.mp hlive).1
    have hzero : runner = 0 := by simpa [started] using hlt
    rw [hzero]
    rfl
  made := by simp [started]

/-- With one more entry one more generation is invalidated. -/
theorem invalidated_cons {generation generation' : ℕ} {reason : String}
    (h : s'.invalidatedGenerations = (generation', reason) :: s.invalidatedGenerations) :
    s'.Invalidated generation ↔ generation = generation' ∨ s.Invalidated generation := by
  unfold Invalidated invalidation
  rw [h, List.lookup_cons]
  by_cases heq : generation = generation'
  · simp [heq]
  · rw [beq_false_of_ne heq]
    simp [heq]

/-- A step within a generation keeps the middleware in step. -/
theorem InStep.same (h : s.InStep) (hsame : SameGeneration s s') : s'.InStep where
  below := by
    unfold Invalidated invalidation
    rw [hsame.runnerGeneration, hsame.invalidatedGenerations]
    exact h.below
  recycled_below := by
    rw [hsame.recycled, hsame.runnerGeneration]
    exact h.recycled_below
  recycled_nodup := by
    rw [hsame.recycled]
    exact h.recycled_nodup
  live := by
    rw [hsame.closed, hsame.runner]
    exact h.live
  made := by
    rw [hsame.closed, hsame.runner]
    exact h.made

/-- Once its own runner is closed, no runner is live. -/
theorem InStep.none_live (h : s.InStep) {runner : ℕ} (hrunner : s.runner = some runner) (r : ℕ) :
    (s.closed.set runner true)[r]? ≠ some false := by
  intro hlive
  rw [List.getElem?_set] at hlive
  by_cases hr : runner = r
  · simp [hr, ite_eq_iff] at hlive
  · rw [if_neg hr] at hlive
    have hcurrent := h.live r hlive
    rw [hrunner] at hcurrent
    exact hr (Option.some.inj hcurrent)

/-- So does a step that ends one. -/
theorem InStep.ends (h : s.InStep) (hends : EndsGeneration s s') : s'.InStep := by
  obtain ⟨runner, hrunner, hcases⟩ := hends.oldRunner
  obtain ⟨reason, hreason⟩ := hends.invalidated
  have hbelow : ∀ generation < s'.runnerGeneration, s'.Invalidated generation := by
    intro generation hlt
    rw [hends.runnerGeneration] at hlt
    rw [invalidated_cons hreason]
    rcases Nat.lt_succ_iff_lt_or_eq.mp hlt with hlt | heq
    · exact .inr (h.below generation hlt)
    · exact .inl heq
  have hrecycled_below : ∀ generation ∈ s.recycled, generation < s'.runnerGeneration := by
    intro generation hmem
    have hlt := h.recycled_below generation hmem
    rw [hends.runnerGeneration]
    omega
  rcases hcases with ⟨hrecycled, opens, hclosed, hnew⟩ | ⟨hrecycled, hclosed, hnew⟩
  · refine ⟨hbelow, ?_, ?_, ?_, ?_⟩
    · rw [hrecycled]
      intro generation hmem
      rcases List.mem_append.mp hmem with hmem | hmem
      · exact hrecycled_below generation hmem
      · rw [List.mem_singleton.mp hmem, hends.runnerGeneration]
        exact Nat.lt_succ_self _
    · rw [hrecycled, List.nodup_append]
      refine ⟨h.recycled_nodup, List.nodup_singleton _, ?_⟩
      intro generation hmem generation' hmem' heq
      have hlt := h.recycled_below generation hmem
      rw [List.mem_singleton.mp hmem'] at heq
      omega
    · intro r hlive
      rw [hclosed] at hlive
      by_cases hr : r < s.closed.length
      · rw [List.getElem?_append_left (by simpa using hr)] at hlive
        exact absurd hlive (h.none_live hrunner r)
      · rw [List.getElem?_append_right (by simpa using hr), List.length_set,
          List.getElem?_singleton] at hlive
        have hlast : r = s.closed.length := by
          by_contra hne
          rw [if_neg (by omega)] at hlive
          cases hlive
        subst hlast
        have hopens : opens = true := by simpa using hlive
        rw [hnew, hopens, if_pos rfl]
    · intro r hr
      have hmade := h.made runner hrunner
      rw [hnew] at hr
      rw [hclosed, List.length_append, List.length_set, List.length_singleton,
        ← Option.some.inj hr]
      split_ifs <;> omega
  · refine ⟨hbelow, ?_, ?_, ?_, ?_⟩
    · rw [hrecycled]
      exact hrecycled_below
    · rw [hrecycled]
      exact h.recycled_nodup
    · intro r hlive
      rw [hclosed] at hlive
      exact absurd hlive (h.none_live hrunner r)
    · intro r hr
      rw [hnew] at hr
      cases hr

/-- The step lemma. -/
theorem InStep.step {label : Label V} (h : s.InStep) (hstep : Step s label s') : s'.InStep := by
  rcases step_generation hstep with hsame | hends
  · exact h.same hsame
  · exact h.ends hends

/-- The run lemma. -/
theorem InStep.run {labels : List (Label V)} (h : s.InStep) (hrun : Effect.Runs Step s labels s') :
    s'.InStep :=
  hrun.invariant (I := fun _ s => s.InStep) h fun _ _ _ _ hin hstep => hin.step hstep

/-- An invalidated generation stays invalidated, whether the current one goes on or ends. -/
theorem Invalidated.mono {generation : ℕ} (h : s.Invalidated generation)
    (hnext : SameGeneration s s' ∨ EndsGeneration s s') : s'.Invalidated generation := by
  rcases hnext with hsame | hends
  · unfold Invalidated invalidation
    rw [hsame.invalidatedGenerations]
    exact h
  · obtain ⟨reason, hreason⟩ := hends.invalidated
    exact (invalidated_cons hreason).mpr (.inr h)

/-- An invalidated generation stays so. -/
theorem Invalidated.step {label : Label V} {generation : ℕ} (h : s.Invalidated generation)
    (hstep : Step s label s') : s'.Invalidated generation :=
  h.mono (step_generation hstep)

/-- It does so along a run. -/
theorem Invalidated.run {labels : List (Label V)} {generation : ℕ} (h : s.Invalidated generation)
    (hrun : Effect.Runs Step s labels s') : s'.Invalidated generation :=
  hrun.invariant (I := fun _ s => s.Invalidated generation) h
    fun _ _ _ _ hinvalidated hstep => hinvalidated.step hstep

/-- No call was submitted to a generation after the current one, nor to the current one unless it has a
runner. -/
def CallsBelow (s : Middleware V) : Prop :=
  ∀ generation ∈ s.callGenerations,
    generation < s.runnerGeneration ∨ generation = s.runnerGeneration ∧ s.runner ≠ none

/-- At the start there are no calls. -/
theorem callsBelow_started (name : String) : (started name : Middleware V).CallsBelow := by
  simp [CallsBelow, callGenerations, started]

/-- A step that keeps or ends the generation leaves the calls below it. -/
theorem CallsBelow.next (h : s.CallsBelow) (hcalls : s'.callGenerations = s.callGenerations)
    (hnext : SameGeneration s s' ∨ EndsGeneration s s') : s'.CallsBelow := by
  intro generation hmem
  rw [hcalls] at hmem
  rcases hnext with hsame | hends
  · rw [hsame.runnerGeneration, hsame.runner]
    exact h generation hmem
  · rw [hends.runnerGeneration]
    rcases h generation hmem with hlt | ⟨heq, -⟩
    · exact .inl (Nat.lt_succ_of_lt hlt)
    · exact .inl (heq ▸ Nat.lt_succ_self _)

/-- A step submits to the current generation only. -/
theorem CallsBelow.step {label : Label V} (h : s.CallsBelow) (hstep : Step s label s') :
    s'.CallsBelow := by
  have hnext := step_generation hstep
  cases hstep with
  | start encodes =>
    rcases s.callGenerations_startBatch encodes with hcalls | ⟨hrunner, hcalls⟩
    · exact h.next hcalls hnext
    · have hsame := (s.startBatch_spec encodes).1
      intro generation hmem
      rw [hsame.runnerGeneration, hsame.runner]
      rw [hcalls] at hmem
      rcases List.mem_append.mp hmem with hmem | hmem
      · exact h generation hmem
      · exact .inr ⟨List.mem_singleton.mp hmem, hrunner⟩
  | resume call wakeup opens found waiting requested =>
    exact h.next (callGenerations_resumeBatch _ _ _ _ _) hnext
  | cancel call => exact h.next (callGenerations_requestCancel _ _) hnext
  | abort reason => exact h.next (callGenerations_abortRunner _ _) hnext

/-- Along a run the calls stay below the generation. -/
theorem CallsBelow.run {labels : List (Label V)} (h : s.CallsBelow)
    (hrun : Effect.Runs Step s labels s') : s'.CallsBelow :=
  hrun.invariant (I := fun _ s => s.CallsBelow) h fun _ _ _ _ hcalls hstep => hcalls.step hstep

/-- The generation that ends is invalidated. -/
theorem EndsGeneration.invalidates (h : EndsGeneration s s') : s'.Invalidated s.runnerGeneration := by
  obtain ⟨reason, hreason⟩ := h.invalidated
  exact (invalidated_cons hreason).mpr (.inl rfl)

/-- An abort invalidates the generations of all calls. -/
theorem InStep.abortRunner_invalidates (h : s.InStep) (hcalls : s.CallsBelow) (reason : String)
    {generation : ℕ} (hmem : generation ∈ s.callGenerations) :
    (s.abortRunner reason).Invalidated generation := by
  rcases hcalls generation hmem with hlt | ⟨rfl, hrunner⟩
  · exact (h.below generation hlt).mono (s.abortRunner_spec reason).1
  · exact (abortRunner_ends reason hrunner).1.invalidates

/-- A pool is recycled on behalf of a call: its generation is invalidated, if it is not already. -/
theorem InStep.recycleRunner_invalidates (h : s.InStep) (hcalls : s.CallsBelow) (call : ℕ)
    (reason : String) (opens : Bool) {generation : ℕ} (hmem : generation ∈ s.callGenerations) :
    (s.recycleRunner call reason generation opens).1.Invalidated generation := by
  rcases hcalls generation hmem with hlt | ⟨rfl, hrunner⟩
  · exact (h.below generation hlt).mono (s.recycleRunner_spec call reason generation opens).1
  · exact (recycleRunner_ends call reason opens hrunner).1.invalidates

/-- A call that times out or is cancelled leaves its generation invalidated. -/
theorem InStep.resumeBatch_invalidates (h : s.InStep) (hcalls : s.CallsBelow) {call : ℕ}
    {c : BatchCall V} (hc : s.calls[call]? = some c) {wakeup : Wakeup V}
    (hwakeup : wakeup = .timedOut ∨ wakeup = .cancelled) (opens : Bool) :
    (s.resumeBatch call c wakeup opens).Invalidated c.generation := by
  have hmem := mem_callGenerations hc
  unfold resumeBatch
  rcases hwakeup with rfl | rfl
  · have hrecycle := h.recycleRunner_invalidates hcalls call "timeout" opens hmem
    dsimp only
    cases hrun : s.recycleRunner call "timeout" c.generation opens with
    | mk s₁ raised =>
      rw [hrun] at hrecycle
      cases raised <;> exact hrecycle
  · dsimp only
    cases herror : s.invalidatedError c.batchIndex c.generation with
    | some error =>
      have hmarked : s.Invalidated c.generation := fun hnone => by
        rw [invalidatedError, hnone] at herror
        cases herror
      exact hmarked
    | none => exact h.abortRunner_invalidates hcalls "cancellation" hmem

/-- A call that is woken up leaves the other calls alone. -/
theorem resume_keeps {call call' : ℕ} {wakeup : Wakeup V} {opens : Bool}
    (hstep : Step s (.resume call wakeup opens) s') (hne : call ≠ call') : KeepsCall s s' call' := by
  cases hstep with
  | @resume c _ _ _ found waiting requested =>
    obtain ⟨s₁, outcome, heq, -, hkeeps, -⟩ := s.resumeBatch_spec call c wakeup opens
    rw [heq]
    exact (hkeeps call').trans (finish_keeps hne outcome)

/-- A call of an invalidated generation that has not returned its result never will. -/
def Doomed (s : Middleware V) (call : ℕ) : Prop :=
  ∃ c, s.calls[call]? = some c ∧ s.Invalidated c.generation ∧
    ∀ result, c.outcome ≠ some (.returned result)

/-- A doomed call stays doomed. -/
theorem Doomed.step {label : Label V} {call : ℕ} (h : s.Doomed call) (hstep : Step s label s') :
    s'.Doomed call := by
  obtain ⟨c, hc, hinvalidated, hnone⟩ := h
  obtain ⟨c', hc', hgeneration, houtcome⟩ := step_call hstep hc
  refine ⟨c', hc', ?_, ?_⟩
  · rw [hgeneration]
    exact hinvalidated.step hstep
  · intro result hresult
    rcases houtcome with hsame | ⟨-, hvalid⟩
    · exact hnone result (hsame.symm.trans hresult)
    · exact hinvalidated (hvalid ⟨result, hresult⟩)

/-- It does so along a run. -/
theorem Doomed.run {labels : List (Label V)} {call : ℕ} (h : s.Doomed call)
    (hrun : Effect.Runs Step s labels s') : s'.Doomed call :=
  hrun.invariant (I := fun _ s => s.Doomed call) h fun _ _ _ _ hdoomed hstep => hdoomed.step hstep

/-- What holds of the generations at a point of a run, and from there on. -/
structure GenerationsHold (s : Middleware V) : Prop where
  /-- Every generation below the current one is invalidated. -/
  below : ∀ generation < s.runnerGeneration, s.Invalidated generation
  /-- An invalidated generation never becomes valid again. -/
  stays : ∀ labels s', Effect.Runs Step s labels s' →
    ∀ generation, s.Invalidated generation → s'.Invalidated generation
  /-- A pool is recycled at most once per generation. -/
  recycledOnce : s.recycled.Nodup
  /-- A call returns its result only if its generation is not invalidated at that moment. -/
  returns : ∀ label s', Step s label s' → ∀ call c, s.calls[call]? = some c →
    c.outcome = none → s'.Returned call → ¬ s.Invalidated c.generation
  /-- A call that is unresolved when its generation is invalidated never returns a result. -/
  fails : ∀ call c, s.calls[call]? = some c → c.outcome = none → s.Invalidated c.generation →
    ∀ labels s', Effect.Runs Step s labels s' → ¬ s'.Returned call
  /-- A call that times out or is cancelled leaves its generation invalidated. -/
  ends : ∀ call wakeup opens s', Step s (.resume call wakeup opens) s' →
    wakeup = .timedOut ∨ wakeup = .cancelled →
      ∀ c : BatchCall V, s.calls[call]? = some c → s'.Invalidated c.generation
  /-- An abort leaves the generations of all calls invalidated. -/
  aborts : ∀ reason s', Step s (.abort reason) s' →
    ∀ (call : ℕ) (c : BatchCall V), s.calls[call]? = some c → s'.Invalidated c.generation
  /-- After a timeout no other call of the generation that is unresolved ever returns a result. -/
  timesOut : ∀ call opens s', Step s (.resume call .timedOut opens) s' →
    ∀ (call' : ℕ) (c c' : BatchCall V), s.calls[call]? = some c → s.calls[call']? = some c' →
      call ≠ call' → c'.generation = c.generation → c'.outcome = none →
        ∀ labels s'', Effect.Runs Step s' labels s'' → ¬ s''.Returned call'
  /-- A batch goes to a closed pool only if no pool is live. -/
  submits : ∀ runner generation : ℕ, s.requireLiveRunner = .ok (runner, generation) →
    s.closed[runner]? ≠ some false → ∀ runner' : ℕ, s.closed[runner']? ≠ some false

/-- A doomed call has not returned. -/
theorem Doomed.not_returned {call : ℕ} (h : s.Doomed call) : ¬ s.Returned call := by
  obtain ⟨c, hc, -, hnone⟩ := h
  rintro ⟨c₁, result, hc₁, hresult⟩
  obtain rfl : c = c₁ := Option.some.inj (hc.symm.trans hc₁)
  exact hnone result hresult

/-- A call that times out dooms the other waiting calls of its generation. -/
theorem InStep.timedOut_dooms (h : s.InStep) (hcalls : s.CallsBelow) {call call' : ℕ} {opens : Bool}
    (hstep : Step s (.resume call .timedOut opens) s') {c c' : BatchCall V}
    (hc : s.calls[call]? = some c) (hc' : s.calls[call']? = some c') (hne : call ≠ call')
    (hgeneration : c'.generation = c.generation) (hwaiting : c'.outcome = none) :
    s'.Doomed call' := by
  obtain ⟨c₁, hc₁, hgeneration₁, houtcome⟩ := resume_keeps hstep hne c' hc'
  refine ⟨c₁, hc₁, ?_, by simp [houtcome, hwaiting]⟩
  rw [hgeneration₁, hgeneration]
  cases hstep with
  | @resume c₀ _ _ _ found waiting requested =>
    obtain rfl : c₀ = c := Option.some.inj (found.symm.trans hc)
    exact h.resumeBatch_invalidates hcalls hc (.inl rfl) opens

/-- A middleware that is in step keeps the promises about generations. -/
theorem InStep.holds (h : s.InStep) (hcalls : s.CallsBelow) : s.GenerationsHold where
  below := h.below
  stays := fun _ _ hrun _ hinvalidated => hinvalidated.run hrun
  recycledOnce := h.recycled_nodup
  returns := by
    intro label s' hstep call c hc hwaiting hreturned
    obtain ⟨c', hc', -, houtcome⟩ := step_call hstep hc
    obtain ⟨c₁, result, hc₁, hresult⟩ := hreturned
    obtain rfl : c' = c₁ := Option.some.inj (hc'.symm.trans hc₁)
    rcases houtcome with hsame | ⟨-, hvalid⟩
    · rw [hsame, hwaiting] at hresult
      cases hresult
    · exact not_not.mpr (hvalid ⟨result, hresult⟩)
  fails := by
    intro call c hc hwaiting hinvalidated labels s' hrun
    have hdoomed : s.Doomed call := ⟨c, hc, hinvalidated, by simp [hwaiting]⟩
    exact (hdoomed.run hrun).not_returned
  ends := by
    intro call wakeup opens s' hstep hwakeup c hc
    cases hstep with
    | @resume c₀ _ _ _ found waiting requested =>
      obtain rfl : c₀ = c := Option.some.inj (found.symm.trans hc)
      exact h.resumeBatch_invalidates hcalls hc hwakeup opens
  aborts := by
    intro reason s' hstep call c hc
    cases hstep
    exact h.abortRunner_invalidates hcalls reason (mem_callGenerations hc)
  timesOut := by
    intro call opens s' hstep call' c c' hc hc' hne hgeneration hwaiting labels s'' hrun
    have hdoomed := h.timedOut_dooms hcalls hstep hc hc' hne hgeneration hwaiting
    exact (hdoomed.run hrun).not_returned
  submits := by
    intro runner generation hlive hclosed runner' hlive'
    have hrunner : s.runner = some runner := by
      unfold requireLiveRunner at hlive
      cases hcase : s.runner with
      | none => simp [hcase] at hlive
      | some r =>
        rw [hcase] at hlive
        cases hlive
        rfl
    have hcurrent := h.live runner' hlive'
    rw [hrunner] at hcurrent
    cases hcurrent
    exact hclosed hlive'

end Middleware

/-- Two batches are in flight, and the first one times out: the pool is recycled. -/
def timedOutRun : Middleware ℕ :=
  let submitted := ((Middleware.started "score" : Middleware ℕ).startBatch true).startBatch true
  submitted.resumeBatch 0 ⟨0, 0, 0, false, none⟩ .timedOut true

/-- The worker of the second batch answers, and the batch fails. -/
example : (timedOutRun.resumeBatch 1 ⟨0, 0, 1, true, none⟩ (.result 7) true).calls.map
    BatchCall.outcome =
      [some (.failed (.batch "score" 0 .timeout true false none)),
        some (.failed (.batch "score" 1 (.invalidatedDueTo 0 "timeout") false true (some 0)))] := by
  decide

end AgoraEtl.ProcessPool
