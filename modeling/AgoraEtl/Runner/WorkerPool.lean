import AgoraEtl.Runner.Leased

/-!
# The worker pool

`WorkerPool.run` starts the coordinator, creates a task for every pipeline and one for the health
server, and waits for the first of them, or for a shutdown request, to be done.  Whatever it is told,
the pool takes its pipelines down before it stops the coordinator: that releases the leases, and a
pipeline that is still running would then write under a lease which another worker may hold.

Every call that is awaited may raise, and every `await` may be cancelled.  The loop waits for the
tasks again and again; each time at least one of them is done, which is what `asyncio.wait` promises,
so the loop ends.

Signal handlers, observers, live metrics and log lines are left out.  `task.cancel()` does nothing to a
task that is done, so that `_force_cancel` cancels all tasks here.
-/

namespace AgoraEtl.Pool

open Effect Program
open Leased (RunError)

/-! ## The pool -/

/-- The tasks of a pool. -/
inductive Task where
  | pipeline (i : ℕ)
  | health
  deriving DecidableEq

/-- What the pool waits for. -/
inductive Waited where
  | shutdown
  | task (t : Task)
  deriving DecidableEq

/-- How the task of a pipeline has ended; a task that was not cancelled and has not failed leaves the
error of the last run. -/
inductive TaskEnd where
  | cancelled
  | failed (e : RunError)
  | finished (lastRunError : Option RunError)
  deriving DecidableEq

/-- What the pool asks the outside. -/
inductive Op where
  | coordinatorStart
  | registerPipeline (i : ℕ)
  | createHealth
  | waitFirst (pending : List Waited)
  | taskEnd (i : ℕ)
  | healthException
  | stopPipeline (i : ℕ)
  | stopHealth
  | waitTimeout (tasks : List Task)
  | cancel (tasks : List Task)
  | gather (tasks : List Task)
  | coordinatorStop
  | cancelShutdownWait
  deriving DecidableEq

/-- The answers; an `await` that is cancelled answers `none` or `false`. -/
abbrev Op.Ret : Op → Type
  | .coordinatorStart => Except Exc Unit
  | .registerPipeline _ => Except Exc Unit
  | .createHealth => Except Exc Unit
  | .waitFirst _ => Option (List Waited)
  | .taskEnd _ => TaskEnd
  | .healthException => Option RunError
  | .stopPipeline _ => Unit
  | .stopHealth => Unit
  | .waitTimeout _ => Option (List Task)
  | .cancel _ => Unit
  | .gather _ => Bool
  | .coordinatorStop => Except Exc Unit
  | .cancelShutdownWait => Bool

/-- The mark of a pool: tasks were created. -/
inductive Mark where
  | created (tasks : List Task)
  deriving DecidableEq

/-- What `run` remembers: the tasks, whether the coordinator was started, and whether there is a task
that waits for the shutdown event. -/
structure PoolState where
  tasks : List Task := []
  coordinatorStarted : Bool := false
  shutdownWait : Bool := false

/-- A pool with its number of pipelines. -/
structure WorkerPool where
  pipelines : ℕ
  hasCoordinator : Bool
  hasHealth : Bool
  deriving DecidableEq

/-- Programs of the pool. -/
abbrev PoolProgram (α : Type) : Type := Program Op Op.Ret Mark PoolState RunError α

/-- The error of a cancelled `await`. -/
abbrev cancelledError : RunError := .exc .cancelled

/-- An `except Exception` catches the error. -/
def isException : RunError → Bool
  | .exc e => e.isException
  | .leaseLost => true

/-- One of the two handlers of `run` catches the error. -/
def isCaught (e : RunError) : Bool := isException e || decide (e = cancelledError)

/-- Raise what an awaited call has raised. -/
def raising : Except Exc Unit → PoolProgram Unit
  | .ok () => ret ()
  | .error e => raise (.exc e)

/-- `suppress(Exception)`. -/
def suppressing : Except Exc Unit → PoolProgram Unit
  | .ok () => ret ()
  | .error e => if e.isException then ret () else raise (.exc e)

/-- Go on, unless the `await` was cancelled. -/
def unlessCancelled : Bool → PoolProgram Unit
  | true => ret ()
  | false => raise cancelledError

/-- What of the awaited is done, as `asyncio.wait` answers. -/
def doneOf (pending answer : List Waited) : List Waited := pending.filter fun x => decide (x ∈ answer)

/-- What of the awaited is left. -/
def restOf (pending answer : List Waited) : List Waited := pending.filter fun x => decide (x ∉ answer)

/-- The error that the end of a pipeline's task stands for. -/
def TaskEnd.error : TaskEnd → Option RunError
  | .cancelled => none
  | .failed e => some e
  | .finished lastRunError => lastRunError

/-- What is raised when the task of the health server has ended. -/
def healthError : Option RunError → RunError
  | some e => e
  | none => .exc (.runtimeError "Health server stopped unexpectedly")

namespace WorkerPool

variable (p : WorkerPool)

/-- The tasks of the pipelines. -/
def pipelineTasks : List Task := (List.range p.pipelines).map .pipeline

/-- The task of the health server, if there is one. -/
def healthTasks : List Task := if p.hasHealth then [.health] else []

/-- All tasks. -/
def tasks : List Task := p.pipelineTasks ++ p.healthTasks

/-- `await self._coordinator.stop()`, if there is a coordinator. -/
def stopCoordinator : PoolProgram Unit :=
  if p.hasCoordinator then perform Op.coordinatorStop >>= raising else ret ()

/-- `await self._coordinator.stop()`, whose exceptions are suppressed. -/
def stopCoordinatorQuietly : PoolProgram Unit :=
  if p.hasCoordinator then perform Op.coordinatorStop >>= suppressing else ret ()

/-- `p.stop()` for every pipeline. -/
def stopPipelines : List ℕ → PoolProgram Unit
  | [] => ret ()
  | i :: rest => do
    perform (Op.stopPipeline i)
    stopPipelines rest

/-- `self._health_server.stop()`, if there is one. -/
def stopHealth : PoolProgram Unit := if p.hasHealth then perform Op.stopHealth else ret ()

/-- Cancel the tasks that are left after the timeout and wait for them. -/
def cancelPending (pending : List Task) : PoolProgram Unit :=
  if pending = [] then ret ()
  else do
    perform (Op.cancel pending)
    let completed ← perform (Op.gather pending)
    unlessCancelled completed

/-- The wait of `_graceful_stop`, for the tasks. -/
def awaitTasks (tasks : List Task) : PoolProgram Unit :=
  if tasks = [] then ret ()
  else do
    let answer ← perform (Op.waitTimeout tasks)
    match answer with
    | none => raise cancelledError
    | some finished => cancelPending (tasks.filter fun t => decide (t ∉ finished))

/-- `_graceful_stop`. -/
def gracefulStop : PoolProgram Unit := do
  stopPipelines (List.range p.pipelines)
  p.stopHealth
  let s ← read
  awaitTasks s.tasks
  p.stopCoordinator

/-- `_force_cancel`. -/
def forceCancel : PoolProgram Unit := do
  let s ← read
  perform (Op.cancel s.tasks)
  let completed ← perform (Op.gather s.tasks)
  unlessCancelled completed
  p.stopCoordinatorQuietly

/-- `_terminal_pipeline_error`: the pipelines in the order of their registration. -/
def terminalPipelineError (done : List Waited) : List ℕ → PoolProgram (Option RunError)
  | [] => ret none
  | i :: rest =>
    if .task (.pipeline i) ∈ done then do
      let ending ← perform (Op.taskEnd i)
      match ending.error with
      | some e => ret (some e)
      | none => terminalPipelineError done rest
    else terminalPipelineError done rest

/-- The end of the loop once all pipelines are done. -/
def complete : PoolProgram Unit := do
  p.stopHealth
  match p.healthTasks with
  | [] => p.stopCoordinator
  | tasks => do
    let completed ← perform (Op.gather tasks)
    unlessCancelled completed
    p.stopCoordinator

/-- What the loop does when the pipelines that are done have left no error. -/
def continueWith (rest : List Waited) : PoolProgram (List Waited ⊕ Unit) :=
  if ∀ t ∈ p.pipelineTasks, .task t ∉ rest then do
    p.complete
    ret (.inr ())
  else ret (.inl rest)

/-- What the loop does with the tasks that are done. -/
def reactTo (done rest : List Waited) : PoolProgram (List Waited ⊕ Unit) :=
  if .shutdown ∈ done then do
    p.gracefulStop
    ret (.inr ())
  else if .task .health ∈ done then do
    let exception ← perform Op.healthException
    p.gracefulStop
    raise (healthError exception)
  else do
    let pipelineError ← terminalPipelineError done (List.range p.pipelines)
    match pipelineError with
    | some e => do
      p.gracefulStop
      raise e
    | none => p.continueWith rest

/-- One turn of `while pending`. -/
def turn (pending : List Waited) : PoolProgram (List Waited ⊕ Unit) :=
  if pending = [] then ret (.inr ())
  else do
    let answer ← perform (Op.waitFirst pending)
    match answer with
    | none => raise cancelledError
    | some answer => p.reactTo (doneOf pending answer) (restOf pending answer)

/-- Start the coordinator, if there is one. -/
def startCoordinator : PoolProgram Unit :=
  if p.hasCoordinator then do
    perform Op.coordinatorStart >>= raising
    modify fun s => { s with coordinatorStarted := true }
  else ret ()

/-- `await self.metrics.register_pipeline(…)` for every pipeline. -/
def registerPipelines : List ℕ → PoolProgram Unit
  | [] => ret ()
  | i :: rest => do
    perform (Op.registerPipeline i) >>= raising
    registerPipelines rest

/-- Create tasks. -/
def createTasks (created : List Task) : PoolProgram Unit := do
  note (.created created)
  modify fun s => { s with tasks := s.tasks ++ created }

/-- Create the health server and its task, if a port is configured. -/
def launchHealth : PoolProgram Unit :=
  if p.hasHealth then do
    perform Op.createHealth >>= raising
    createTasks [.health]
  else ret ()

/-- What `run` does before it enters the loop. -/
def launch : PoolProgram Unit := do
  p.startCoordinator
  registerPipelines (List.range p.pipelines)
  createTasks p.pipelineTasks
  p.launchHealth
  modify fun s => { s with shutdownWait := true }

/-- What the loop waits for at first. -/
def awaited : List Waited := .shutdown :: p.tasks.map .task

/-- The `try` block of `run`. -/
def serve (fuel : ℕ) : PoolProgram Unit := do
  p.launch
  iterate p.turn fuel p.awaited

/-- What the handler of `Exception` does before it raises the exception again. -/
def cleanUp : PoolProgram Unit := do
  let s ← read
  if s.tasks ≠ [] then p.forceCancel
  else if s.coordinatorStarted then p.stopCoordinatorQuietly
  else ret ()

/-- The `except` clauses of `run`. -/
def handle : Except RunError Unit → PoolProgram Unit
  | .ok () => ret ()
  | .error (.exc .cancelled) => p.forceCancel
  | .error e =>
    if isException e then do
      p.cleanUp
      raise e
    else raise e

/-- The `finally` block of `run`. -/
def finish : PoolProgram Unit := do
  let s ← read
  if s.shutdownWait then do
    let completed ← perform Op.cancelShutdownWait
    unlessCancelled completed
    modify fun s => { s with tasks := [] }
  else modify fun s => { s with tasks := [] }

/-- `run`. -/
def run (fuel : ℕ) : PoolProgram Unit :=
  if p.pipelines = 0 then ret ()
  else do
    let ended ← (p.serve fuel).attempt
    let handled ← (p.handle ended).attempt
    finish
    ofExcept handled

end WorkerPool

/-! ## What a trace tells -/

/-- The tasks that an event creates. -/
def creates : Event Op Op.Ret Mark → List Task
  | .mark (.created tasks) => tasks
  | _ => []

/-- The task that is waited for. -/
def Waited.task? : Waited → Option Task
  | .shutdown => none
  | .task t => some t

/-- The tasks that an event reports as done. -/
def reports : Event Op Op.Ret Mark → List Task
  | .called (.waitFirst pending) (some answer) => (doneOf pending answer).filterMap Waited.task?
  | .called (.waitTimeout tasks) (some finished) => tasks.filter fun t => decide (t ∈ finished)
  | .called (.gather tasks) true => tasks
  | _ => []

/-- The error with which an awaited call has left the pool. -/
def leaves : Event Op Op.Ret Mark → List RunError
  | .called .coordinatorStart (.error e) => [.exc e]
  | .called (.registerPipeline _) (.error e) => [.exc e]
  | .called .createHealth (.error e) => [.exc e]
  | .called (.waitFirst _) none => [cancelledError]
  | .called (.waitTimeout _) none => [cancelledError]
  | .called (.gather _) false => [cancelledError]
  | .called .coordinatorStop (.error e) => [.exc e]
  | .called .cancelShutdownWait false => [cancelledError]
  | _ => []

/-- The error that the end of a task is found to be. -/
def finds : Event Op Op.Ret Mark → List RunError
  | .called (.taskEnd _) ending => ending.error.toList
  | .called .healthException exception => [healthError exception]
  | _ => []

section

variable (t : Trace Op Op.Ret Mark)

/-- The tasks that were created. -/
def createdTasks : List Task := t.flatMap creates

/-- The tasks that were reported as done. -/
def reportedTasks : List Task := t.flatMap reports

/-- The errors of the calls that the pool has awaited. -/
def failures : List RunError := t.flatMap leaves

/-- The errors of the tasks that the pool has looked at. -/
def found : List RunError := t.flatMap finds

/-- The coordinator was started. -/
def Started : Prop := Event.called .coordinatorStart (.ok ()) ∈ t

/-- The coordinator was told to stop. -/
def Stopped : Prop := ∃ r, Event.called .coordinatorStop r ∈ t

/-- The shutdown request was reported. -/
def ShutdownReported : Prop :=
  ∃ pending answer, Event.called (.waitFirst pending) (some answer) ∈ t ∧
    Waited.shutdown ∈ doneOf pending answer

/-- The task of the pipeline has ended without an error. -/
def EndedWell (i : ℕ) : Prop :=
  ∃ ending : TaskEnd, Event.called (.taskEnd i) ending ∈ t ∧ ending.error = none

end

/-- When the coordinator is told to stop, all tasks that were created have been reported as done. -/
def StopsAfterTasks (t : Trace Op Op.Ret Mark) (e : Event Op Op.Ret Mark) : Prop :=
  ∀ r, e = .called .coordinatorStop r → ∀ task ∈ createdTasks t, task ∈ reportedTasks t

/-- `asyncio.wait(…, return_when=FIRST_COMPLETED)` answers when something is done. -/
def WaitAnswered (_ : Trace Op Op.Ret Mark) (e : Event Op Op.Ret Mark) : Prop :=
  ∀ pending answer, e = .called (.waitFirst pending) (some answer) → doneOf pending answer ≠ []

/-- The contract of a pool. -/
abbrev contract : Contract Op Op.Ret Mark PoolState := .alone WaitAnswered StopsAfterTasks False

section

variable {t t' : Trace Op Op.Ret Mark} {e : Event Op Op.Ret Mark}

/-- The created tasks of two parts of a run follow one another. -/
@[simp] theorem createdTasks_append : createdTasks (t ++ t') = createdTasks t ++ createdTasks t' :=
  List.flatMap_append

/-- So do the reported ones. -/
@[simp] theorem reportedTasks_append : reportedTasks (t ++ t') = reportedTasks t ++ reportedTasks t' :=
  List.flatMap_append

/-- So do the failures of calls. -/
@[simp] theorem failures_append : failures (t ++ t') = failures t ++ failures t' := List.flatMap_append

/-- So do the errors that were found. -/
@[simp] theorem found_append : found (t ++ t') = found t ++ found t' := List.flatMap_append

/-- At the start no task is created. -/
@[simp] theorem createdTasks_nil : createdTasks [] = [] := rfl

/-- The created tasks begin with those of the first event. -/
@[simp] theorem createdTasks_cons : createdTasks (e :: t) = creates e ++ createdTasks t := rfl

/-- At the start no task is reported. -/
@[simp] theorem reportedTasks_nil : reportedTasks [] = [] := rfl

/-- The reported tasks begin with those of the first event. -/
@[simp] theorem reportedTasks_cons : reportedTasks (e :: t) = reports e ++ reportedTasks t := rfl

/-- At the start no call has failed. -/
@[simp] theorem failures_nil : failures [] = [] := rfl

/-- The failures begin with that of the first event. -/
@[simp] theorem failures_cons : failures (e :: t) = leaves e ++ failures t := rfl

/-- At the start no error is found. -/
@[simp] theorem found_nil : found [] = [] := rfl

/-- The found errors begin with those of the first event. -/
@[simp] theorem found_cons : found (e :: t) = finds e ++ found t := rfl

/-- An error that was found stays found. -/
theorem found_mono {x : RunError} (h : t <+: t') (hx : x ∈ found t) : x ∈ found t' := by
  obtain ⟨s, rfl⟩ := h
  simp [hx]

/-- A run without failures had none before. -/
theorem failures_eq_nil_mono (h : t <+: t') (hq : failures t' = []) : failures t = [] := by
  obtain ⟨s, rfl⟩ := h
  exact (List.append_eq_nil_iff.mp (failures_append ▸ hq)).1

end

/-! ## What the parts of the pool do -/

/-- All tasks that were created have been reported as done. -/
def AllReported (t : Trace Op Op.Ret Mark) : Prop := ∀ task ∈ createdTasks t, task ∈ reportedTasks t

/-- The pool remembers what the trace tells. -/
structure Tracks (p : WorkerPool) (w : World Op Op.Ret Mark PoolState) : Prop where
  tasks : w.state.tasks = createdTasks w.trace
  started : w.state.coordinatorStarted = true ↔ Started w.trace
  coordinator : Started w.trace → p.hasCoordinator = true

/-- The pool has gone on without creating tasks. -/
structure Forward (p : WorkerPool) (w w' : World Op Op.Ret Mark PoolState) : Prop where
  tracks : Tracks p w'
  trace : w.trace <+: w'.trace
  created : createdTasks w'.trace = createdTasks w.trace
  started : Started w'.trace → Started w.trace

/-- An awaited call has left the pool with the error. -/
structure Failed (p : WorkerPool) (w : World Op Op.Ret Mark PoolState) (e : RunError)
    (w' : World Op Op.Ret Mark PoolState) : Prop where
  forward : Forward p w w'
  failure : e ∈ failures w'.trace

/-- The coordinator was told to stop, if it was started. -/
structure Down (p : WorkerPool) (w w' : World Op Op.Ret Mark PoolState) : Prop where
  forward : Forward p w w'
  stopped : Started w'.trace → Stopped w'.trace

section

variable {p : WorkerPool} {w w' w'' : World Op Op.Ret Mark PoolState}

/-- Doing nothing is a step forward. -/
theorem Forward.refl (h : Tracks p w) : Forward p w w := ⟨h, List.prefix_rfl, rfl, id⟩

/-- Steps forward compose. -/
theorem Forward.trans (h : Forward p w w') (h' : Forward p w' w'') : Forward p w w'' :=
  ⟨h'.tracks, h.trace.trans h'.trace, h'.created.trans h.created, h.started ∘ h'.started⟩

/-- A failure after steps forward is a failure of the whole. -/
theorem Failed.after {e : RunError} (h : Forward p w w') (h' : Failed p w' e w'') : Failed p w e w'' :=
  ⟨h.trans h'.forward, h'.failure⟩

/-- A shutdown after steps forward is one of the whole. -/
theorem Down.after (h : Forward p w w') (h' : Down p w' w'') : Down p w w'' :=
  ⟨h.trans h'.forward, h'.stopped⟩

/-- Only the call that starts the coordinator starts it. -/
theorem started_called {o : Op} (ho : o ≠ .coordinatorStart) (r : Op.Ret o) :
    Started (w.called o r).trace ↔ Started w.trace := by
  simp only [Started, World.called_trace, List.mem_append, List.mem_singleton, or_iff_left_iff_imp,
    Event.called.injEq]
  exact fun heq => absurd heq.1.symm ho

/-- A call other than the start of the coordinator. -/
theorem Forward.called (h : Tracks p w) {o : Op} (ho : o ≠ .coordinatorStart) (r : Op.Ret o) :
    Forward p w (w.called o r) where
  tracks :=
    { tasks := by simpa [creates] using h.tasks
      started := h.started.trans (started_called ho r).symm
      coordinator := fun hs => h.coordinator ((started_called ho r).mp hs) }
  trace := List.prefix_append _ _
  created := by simp [creates]
  started := (started_called ho r).mp

/-- A call that is answered with an error. -/
theorem Failed.called (h : Tracks p w) {o : Op} (ho : o ≠ .coordinatorStart) {r : Op.Ret o} {e : RunError}
    (he : e ∈ leaves (.called o r)) : Failed p w e (w.called o r) :=
  ⟨.called h ho r, by simp [he]⟩

/-- Calls create no task, so that all stay reported. -/
theorem AllReported.called (h : AllReported w.trace) (o : Op) (r : Op.Ret o) :
    AllReported (w.called o r).trace := by
  intro task htask
  simp only [World.called_trace, createdTasks_append, createdTasks_cons, createdTasks_nil, creates,
    List.append_nil] at htask
  simp [h task htask]

/-- The loop waits for everything that is not done. -/
structure Waiting (p : WorkerPool) (pending : List Waited) (w : World Op Op.Ret Mark PoolState) : Prop where
  tracks : Tracks p w
  created : createdTasks w.trace = p.tasks
  shutdown : .shutdown ∈ pending
  unreported : ∀ t ∈ p.tasks, .task t ∈ pending ∨ t ∈ reportedTasks w.trace
  unended : ∀ i < p.pipelines, .task (.pipeline i) ∈ pending ∨ EndedWell w.trace i

/-- What is done are the awaited things of the answer. -/
theorem mem_doneOf {pending answer : List Waited} {x : Waited} :
    x ∈ doneOf pending answer ↔ x ∈ pending ∧ x ∈ answer := by simp [doneOf]

/-- What was awaited is done or still awaited. -/
theorem mem_done_or_rest {pending : List Waited} (answer : List Waited) {x : Waited} (h : x ∈ pending) :
    x ∈ doneOf pending answer ∨ x ∈ restOf pending answer := by
  by_cases hanswer : x ∈ answer
  · exact .inl (mem_doneOf.mpr ⟨h, hanswer⟩)
  · exact .inr (List.mem_filter.mpr ⟨h, by simpa using hanswer⟩)

/-- A task that is done is reported. -/
theorem reported_of_done {pending answer : List Waited} {task : Task}
    (h : .task task ∈ doneOf pending answer) :
    task ∈ reports (.called (.waitFirst pending) (some answer)) :=
  List.mem_filterMap.mpr ⟨_, h, rfl⟩

/-- A pipeline that ended well stays so. -/
theorem EndedWell.mono {t t' : Trace Op Op.Ret Mark} {i : ℕ} (ht : t <+: t') (h : EndedWell t i) :
    EndedWell t' i := by
  obtain ⟨ending, hcall, hnone⟩ := h
  exact ⟨ending, ht.subset hcall, hnone⟩

/-- Why the loop has ended: a shutdown was requested, or all pipelines have ended without an error. -/
def Finished (p : WorkerPool) (t : Trace Op Op.Ret Mark) : Prop :=
  ShutdownReported t ∨ ∀ i < p.pipelines, EndedWell t i

/-- A finished pool stays finished. -/
theorem Finished.mono {t t' : Trace Op Op.Ret Mark} (ht : t <+: t') (h : Finished p t) : Finished p t' := by
  rcases h with ⟨pending, answer, hcall, hdone⟩ | hended
  · exact .inl ⟨pending, answer, ht.subset hcall, hdone⟩
  · exact .inr fun i hi => (hended i hi).mono ht

/-- How the loop is left with an error: a call has failed, or the tasks are down and the error is that of
a task. -/
def Left (p : WorkerPool) (e : RunError) (w : World Op Op.Ret Mark PoolState) : Prop :=
  Tracks p w ∧ (e ∈ failures w.trace ∨ (Started w.trace → Stopped w.trace) ∧ e ∈ found w.trace)

/-- A failed call is a way to leave the pool. -/
theorem Failed.left {e : RunError} (h : Failed p w e w') :
    Left p e w' := ⟨h.forward.tracks, .inl h.failure⟩

/-- A shutdown with an error that was found is another one. -/
theorem Down.left {e : RunError} (h : Down p w w')
    (he : e ∈ found w.trace) : Left p e w' :=
  ⟨h.forward.tracks, .inr ⟨h.stopped, found_mono h.forward.trace he⟩⟩

end

namespace WorkerPool

variable {p : WorkerPool} {w₀ w : World Op Op.Ret Mark PoolState}

/-- A call that may not be the last one: what `Safe` asks of it. -/
theorem safe_called {o : Op} {Q : Op.Ret o → World Op Op.Ret Mark PoolState →
      World Op Op.Ret Mark PoolState → Prop}
    {E : RunError → World Op Op.Ret Mark PoolState → World Op Op.Ret Mark PoolState → Prop}
    (ho : o ≠ .coordinatorStop) (h : ∀ r, WaitAnswered w.trace (.called o r) → Q r w (w.called o r)) :
    (perform o : PoolProgram (Op.Ret o)).Safe contract Q E w₀ w := by
  refine safe_perform_alone.mpr fun r ha => ⟨fun r' he => ?_, h r ha⟩
  cases he
  exact absurd rfl ho

/-- The coordinator is stopped once all tasks are reported, or its call fails. -/
theorem safe_stopCoordinator (h : Tracks p w) (hall : AllReported w.trace) :
    p.stopCoordinator.Safe contract (fun _ _ w' => Down p w w') (fun e _ w' => Failed p w e w') w₀ w := by
  unfold stopCoordinator
  split
  · rw [safe_bind, safe_perform_alone]
    intro r _
    refine ⟨fun _ _ => hall, ?_⟩
    cases r with
    | ok u => exact ⟨.called h (by decide) _, fun _ => ⟨.ok u, by simp⟩⟩
    | error e => exact .called h (by decide) (by simp [leaves])
  · next hnone => exact ⟨.refl h, fun hstarted => absurd (h.coordinator hstarted) hnone⟩

/-- Stopping pipelines goes forward, or a call fails. -/
theorem safe_stopPipelines (is : List ℕ) (h : Tracks p w) :
    (stopPipelines is).Safe contract (fun _ _ w' => Forward p w w') (fun e _ w' => Failed p w e w')
      w₀ w := by
  induction is generalizing w₀ w with
  | nil => exact .refl h
  | cons i is ih =>
    rw [stopPipelines, safe_bind]
    refine safe_called (by simp) fun r _ => ?_
    have hstep : Forward p w (w.called (.stopPipeline i) r) := .called h (by simp) r
    exact (ih hstep.tracks).mono (fun _ _ _ hf => hstep.trans hf) fun _ _ _ hf => .after hstep hf

/-- Stopping the health task goes forward, or a call fails. -/
theorem safe_stopHealth (h : Tracks p w) :
    p.stopHealth.Safe contract (fun _ _ w' => Forward p w w') (fun e _ w' => Failed p w e w') w₀ w := by
  unfold stopHealth
  split
  · exact safe_called (by decide) fun r _ => .called h (by decide) r
  · exact .refl h

/-- Waiting for the tasks that are not reported yet. -/
theorem safe_gather {tasks : List Task} (h : Tracks p w)
    (hrest : ∀ task ∈ createdTasks w.trace, task ∈ reportedTasks w.trace ∨ task ∈ tasks) :
    (perform (Op.gather tasks) >>= unlessCancelled : PoolProgram Unit).Safe contract
      (fun _ _ w' => Forward p w w' ∧ AllReported w'.trace) (fun e _ w' => Failed p w e w') w₀ w := by
  rw [safe_bind]
  refine safe_called (by simp) fun completed _ => ?_
  cases completed with
  | true =>
    refine ⟨.called h (by simp) _, fun task htask => ?_⟩
    simp only [World.called_trace, createdTasks_append, createdTasks_cons, createdTasks_nil, creates,
      List.append_nil] at htask
    simpa [reports] using hrest task htask
  | false => exact .called h (by simp) (by simp [leaves])

/-- Cancelling the pending tasks has all of them reported, or a call fails. -/
theorem safe_cancelPending {pending : List Task} (h : Tracks p w)
    (hrest : ∀ task ∈ createdTasks w.trace, task ∈ reportedTasks w.trace ∨ task ∈ pending) :
    (cancelPending pending).Safe contract (fun _ _ w' => Forward p w w' ∧ AllReported w'.trace)
      (fun e _ w' => Failed p w e w') w₀ w := by
  unfold cancelPending
  split
  · next hnil =>
    subst hnil
    exact ⟨.refl h, fun task htask => by simpa using hrest task htask⟩
  · rw [safe_bind]
    refine safe_called (by simp) fun r _ => ?_
    have hstep : Forward p w (w.called (.cancel pending) r) := .called h (by simp) r
    refine (safe_gather hstep.tracks fun task htask => ?_).mono
      (fun _ _ _ hf => ⟨hstep.trans hf.1, hf.2⟩) fun _ _ _ hf => .after hstep hf
    rw [hstep.created] at htask
    simpa [reports] using hrest task htask

/-- Awaiting the created tasks has all of them reported, or a call fails. -/
theorem safe_awaitTasks {tasks : List Task} (h : Tracks p w) (htasks : createdTasks w.trace = tasks) :
    (awaitTasks tasks).Safe contract (fun _ _ w' => Forward p w w' ∧ AllReported w'.trace)
      (fun e _ w' => Failed p w e w') w₀ w := by
  unfold awaitTasks
  split
  · next hnil => exact ⟨.refl h, fun task htask => by simp [htasks, hnil] at htask⟩
  · rw [safe_bind]
    refine safe_called (by simp) fun answer _ => ?_
    cases answer with
    | none => exact .called h (by simp) (by simp [leaves])
    | some finished =>
      have hstep : Forward p w (w.called (.waitTimeout tasks) (some finished)) :=
        .called h (by simp) _
      refine (safe_cancelPending hstep.tracks fun task htask => ?_).mono
        (fun _ _ _ hf => ⟨hstep.trans hf.1, hf.2⟩) fun _ _ _ hf => .after hstep hf
      rw [hstep.created, htasks] at htask
      by_cases hfinished : task ∈ finished
      · left
        simp [reports, htask, hfinished]
      · exact .inr (List.mem_filter.mpr ⟨htask, by simpa using hfinished⟩)

/-- `_graceful_stop` takes the tasks down first. -/
theorem safe_gracefulStop (h : Tracks p w) :
    p.gracefulStop.Safe contract (fun _ _ w' => Down p w w') (fun e _ w' => Failed p w e w') w₀ w := by
  rw [gracefulStop, safe_bind]
  refine (safe_stopPipelines _ h).mono (fun _ _ w₁ h₁ => ?_) fun _ _ _ he => he
  rw [safe_bind]
  refine (safe_stopHealth h₁.tracks).mono (fun _ _ w₂ h₂ => ?_) fun _ _ _ he => .after h₁ he
  have h₂' := h₁.trans h₂
  rw [safe_bind, safe_read, safe_bind]
  refine (safe_awaitTasks h₂.tracks h₂.tracks.tasks.symm).mono (fun _ _ w₃ h₃ => ?_)
    fun _ _ _ he => .after h₂' he
  exact (safe_stopCoordinator h₃.1.tracks h₃.2).mono (fun _ _ _ hd => .after (h₂'.trans h₃.1) hd)
    fun _ _ _ he => .after (h₂'.trans h₃.1) he

/-- Stopping the coordinator does not fail with an exception. -/
theorem safe_stopCoordinatorQuietly (h : Tracks p w) (hall : AllReported w.trace) :
    p.stopCoordinatorQuietly.Safe contract (fun _ _ w' => Down p w w')
      (fun e _ w' => Failed p w e w' ∧ Stopped w'.trace) w₀ w := by
  unfold stopCoordinatorQuietly
  split
  · rw [safe_bind, safe_perform_alone]
    intro r _
    refine ⟨fun _ _ => hall, ?_⟩
    have hstopped : Stopped (w.called .coordinatorStop r).trace := ⟨r, by simp⟩
    cases r with
    | ok u => exact ⟨.called h (by decide) _, fun _ => hstopped⟩
    | error e =>
      rw [suppressing]
      split
      · exact ⟨.called h (by decide) _, fun _ => hstopped⟩
      · exact ⟨.called h (by decide) (by simp [leaves]), hstopped⟩
  · next hnone => exact ⟨.refl h, fun hstarted => absurd (h.coordinator hstarted) hnone⟩

/-- `_force_cancel` fails when its own wait is cancelled, or when the coordinator fails to stop with
something that is no exception. -/
theorem safe_forceCancel (h : Tracks p w) :
    p.forceCancel.Safe contract (fun _ _ w' => Down p w w')
      (fun e _ w' => Failed p w e w' ∧
        (Stopped w'.trace ∨ (failures w.trace).length < (failures w'.trace).length)) w₀ w := by
  rw [forceCancel, safe_bind, safe_read, safe_bind]
  refine safe_called (by simp) fun r _ => ?_
  have hcancel : Forward p w (w.called (.cancel w.state.tasks) r) := .called h (by simp) r
  rw [safe_bind]
  refine safe_called (by simp) fun completed _ => ?_
  have hgather := hcancel.trans (.called hcancel.tracks (by simp : Op.gather w.state.tasks ≠ _) completed)
  cases completed with
  | false => exact ⟨⟨hgather, by simp [leaves]⟩, .inr (by simp [leaves])⟩
  | true =>
    have hall : AllReported
        ((w.called (.cancel w.state.tasks) r).called (.gather w.state.tasks) true).trace := by
      intro task htask
      rw [hgather.created, ← h.tasks] at htask
      simp [reports, htask]
    exact (safe_stopCoordinatorQuietly hgather.tracks hall).mono (fun _ _ _ hd => .after hgather hd)
      fun _ _ _ he => ⟨.after hgather he.1, .inl he.2⟩

/-- What the handler of `Exception` does first. -/
theorem safe_cleanUp (h : Tracks p w) :
    p.cleanUp.Safe contract (fun _ _ w' => Down p w w')
      (fun e _ w' => Failed p w e w' ∧
        (Stopped w'.trace ∨ (failures w.trace).length < (failures w'.trace).length)) w₀ w := by
  rw [cleanUp, safe_bind, safe_read]
  split
  · exact safe_forceCancel h
  · next hnil =>
    split
    · have hall : AllReported w.trace := by
        intro task htask
        rw [← h.tasks, not_not.mp hnil] at htask
        exact absurd htask List.not_mem_nil
      exact (safe_stopCoordinatorQuietly h hall).mono (fun _ _ _ hd => hd)
        fun _ _ _ he => ⟨he.1, .inl he.2⟩
    · next hstarted => exact ⟨.refl h, fun hs => absurd (h.started.mpr hs) hstarted⟩

/-- The ends of the pipelines that are done are looked at, up to the first error. -/
theorem safe_terminalPipelineError (done : List Waited) (is : List ℕ) (h : Tracks p w) :
    (terminalPipelineError done is).Safe contract
      (fun r _ w' => Forward p w w' ∧ (∀ e, r = some e → e ∈ found w'.trace) ∧
        (r = none → ∀ i ∈ is, .task (.pipeline i) ∈ done → EndedWell w'.trace i))
      (fun e _ w' => Failed p w e w') w₀ w := by
  induction is generalizing w₀ w with
  | nil => exact ⟨.refl h, by simp, by simp⟩
  | cons i is ih =>
    unfold terminalPipelineError
    split
    · rw [safe_bind]
      refine safe_called (by simp) fun ending _ => ?_
      have hstep : Forward p w (w.called (.taskEnd i) ending) := .called h (by simp) ending
      cases herror : TaskEnd.error ending with
      | some e =>
        refine ⟨hstep, fun e' he' => ?_, by simp⟩
        cases he'
        simp [finds, herror]
      | none =>
        refine (ih hstep.tracks).mono (fun r _ w' hr =>
          ⟨hstep.trans hr.1, hr.2.1, fun hnone j hj hdone => ?_⟩) fun _ _ _ he => .after hstep he
        rcases List.mem_cons.mp hj with rfl | hj
        · exact ⟨ending, hr.1.trace.subset (by simp), herror⟩
        · exact hr.2.2 hnone j hj hdone
    · next hnot =>
      refine (ih h).mono (fun r _ w' hr => ⟨hr.1, hr.2.1, fun hnone j hj hdone => ?_⟩) fun _ _ _ he => he
      rcases List.mem_cons.mp hj with rfl | hj
      · exact absurd hdone hnot
      · exact hr.2.2 hnone j hj hdone

/-- The loop ends once all pipelines are done. -/
theorem safe_complete (h : Tracks p w) (hcreated : createdTasks w.trace = p.tasks)
    (hreported : ∀ t ∈ p.pipelineTasks, t ∈ reportedTasks w.trace) :
    p.complete.Safe contract (fun _ _ w' => Down p w w') (fun e _ w' => Failed p w e w') w₀ w := by
  rw [complete, safe_bind]
  refine (safe_stopHealth h).mono (fun _ _ w₁ h₁ => ?_) fun _ _ _ he => he
  have hopen : ∀ t ∈ createdTasks w₁.trace, t ∈ reportedTasks w₁.trace ∨ t ∈ p.healthTasks := by
    intro t ht
    rw [h₁.created, hcreated, tasks, List.mem_append] at ht
    obtain ⟨s, hs⟩ := h₁.trace
    refine ht.imp (fun hpipeline => ?_) id
    simp [← hs, hreported t hpipeline]
  split
  · next hnil =>
    have hall : AllReported w₁.trace := fun t ht => by simpa [hnil] using hopen t ht
    exact (safe_stopCoordinator h₁.tracks hall).mono (fun _ _ _ hd => .after h₁ hd)
      fun _ _ _ he => .after h₁ he
  · rw [← bind_assoc, safe_bind]
    refine (safe_gather h₁.tracks hopen).mono (fun _ _ w₂ h₂ => ?_) fun _ _ _ he => .after h₁ he
    exact (safe_stopCoordinator h₂.1.tracks h₂.2).mono (fun _ _ _ hd => .after (h₁.trans h₂.1) hd)
      fun _ _ _ he => .after (h₁.trans h₂.1) he

/-- One turn keeps waiting for what is not done, and it waits for less. -/
theorem waiting_rest {pending answer : List Waited} (h : Waiting p pending w)
    (hdone : doneOf pending answer ≠ []) (hshutdown : .shutdown ∉ doneOf pending answer)
    {w' : World Op Op.Ret Mark PoolState}
    (hforward : Forward p (w.called (.waitFirst pending) (some answer)) w')
    (hended : ∀ i < p.pipelines, .task (.pipeline i) ∈ doneOf pending answer → EndedWell w'.trace i) :
    Waiting p (restOf pending answer) w' ∧ (restOf pending answer).length < pending.length := by
  have hall := (Forward.called (o := .waitFirst pending) h.tracks (by simp) (some answer)).trans hforward
  refine ⟨⟨hforward.tracks, hall.created.trans h.created, ?_, fun t ht => ?_, fun i hi => ?_⟩, ?_⟩
  · exact (mem_done_or_rest answer h.shutdown).resolve_left hshutdown
  · rcases h.unreported t ht with hopen | hreported
    · refine (mem_done_or_rest answer hopen).symm.imp_right fun hmem => ?_
      obtain ⟨s, hs⟩ := hforward.trace
      simp [← hs, reported_of_done hmem]
    · obtain ⟨s, hs⟩ := hall.trace
      simp [← hs, hreported]
  · rcases h.unended i hi with hopen | hwell
    · exact (mem_done_or_rest answer hopen).symm.imp_right (hended i hi)
    · exact .inr (hwell.mono hall.trace)
  · obtain ⟨x, hx⟩ := List.exists_mem_of_ne_nil _ hdone
    obtain ⟨hpending, hanswer⟩ := mem_doneOf.mp hx
    exact List.length_filter_lt_length_iff_exists.mpr ⟨x, hpending, by simpa using hanswer⟩

/-- What the loop does once `asyncio.wait` has answered. -/
theorem safe_reactTo {pending answer : List Waited} (h : Waiting p pending w)
    (hdone : doneOf pending answer ≠ []) :
    (p.reactTo (doneOf pending answer) (restOf pending answer)).Safe contract
      (fun r _ w' => r.elim (fun rest => Waiting p rest w' ∧ rest.length < pending.length)
        fun _ => Down p w w' ∧ Finished p w'.trace)
      (fun e _ w' => Left p e w') w₀ (w.called (.waitFirst pending) (some answer)) := by
  have hstep : Forward p w (w.called (.waitFirst pending) (some answer)) :=
    .called (o := .waitFirst pending) h.tracks (by simp) (some answer)
  rw [reactTo]
  split
  · next hshutdown =>
    rw [safe_bind]
    refine (safe_gracefulStop hstep.tracks).mono (fun _ _ w' hdown => ?_) fun _ _ _ he => he.left
    refine ⟨.after hstep hdown, .inl ⟨pending, answer, hdown.forward.trace.subset ?_, hshutdown⟩⟩
    simp
  · next hshutdown =>
    split
    · rw [safe_bind]
      refine safe_called (by simp) fun exception _ => ?_
      have hlook := hstep.trans (.called hstep.tracks (by simp : Op.healthException ≠ _) exception)
      rw [safe_bind]
      refine (safe_gracefulStop hlook.tracks).mono (fun _ _ w' hdown => ?_) fun _ _ _ he => he.left
      exact hdown.left (by simp [finds])
    · rw [safe_bind]
      refine (safe_terminalPipelineError _ _ hstep.tracks).mono (fun r _ w₁ hr => ?_)
        fun _ _ _ he => he.left
      obtain ⟨hlook, hfound, hwell⟩ := hr
      cases r with
      | some e =>
        change (p.gracefulStop >>= _ : PoolProgram _).Safe _ _ _ _ _
        rw [safe_bind]
        exact (safe_gracefulStop hlook.tracks).mono (fun _ _ w' hdown => hdown.left (hfound e rfl))
          fun _ _ _ he => he.left
      | none =>
        have hrest := waiting_rest h hdone hshutdown hlook fun i hi =>
          hwell rfl i (List.mem_range.mpr hi)
        change (p.continueWith _).Safe _ _ _ _ _
        rw [continueWith]
        split
        · next hcomplete =>
          have hpipelines : ∀ t ∈ p.pipelineTasks, t ∈ reportedTasks w₁.trace := fun t ht =>
            (hrest.1.unreported t (List.mem_append_left _ ht)).resolve_left (hcomplete t ht)
          have hended : ∀ i < p.pipelines, EndedWell w₁.trace i := fun i hi =>
            (hrest.1.unended i hi).resolve_left
              (hcomplete _ (List.mem_map_of_mem (List.mem_range.mpr hi)))
          rw [safe_bind]
          refine (safe_complete hlook.tracks hrest.1.created hpipelines).mono (fun _ _ w' hdown => ?_)
            fun _ _ _ he => he.left
          exact ⟨.after (hstep.trans hlook) hdown, .inr fun i hi => (hended i hi).mono hdown.forward.trace⟩
        · exact hrest

/-- One turn of the loop. -/
theorem safe_turn (pending : List Waited) (h : Waiting p pending w) :
    (p.turn pending).Safe contract
      (fun r _ w' => r.elim (fun rest => Waiting p rest w' ∧ rest.length < pending.length)
        fun _ => Down p w w' ∧ Finished p w'.trace)
      (fun e _ w' => Left p e w') w₀ w := by
  have hpending : pending ≠ [] := List.ne_nil_of_mem h.shutdown
  rw [turn, if_neg hpending, safe_bind]
  refine safe_called (by simp) fun answer hanswered => ?_
  cases answer with
  | none =>
    have hfailed : Failed p w cancelledError (w.called (.waitFirst pending) none) :=
      .called h.tracks (by simp) (by simp [leaves])
    exact hfailed.left
  | some answer => exact safe_reactTo h (hanswered pending answer rfl)

/-- Nothing has happened yet. -/
theorem tracks_nil : Tracks p ⟨{}, []⟩ :=
  ⟨rfl, by simp [Started], by simp [Started]⟩

/-- The coordinator is started before anything else. -/
theorem safe_startCoordinator :
    p.startCoordinator.Safe contract (fun _ _ w' => Tracks p w' ∧ createdTasks w'.trace = [])
      (fun e _ w' => Left p e w') w₀ ⟨{}, []⟩ := by
  unfold startCoordinator
  split
  · next hcoordinator =>
    rw [safe_bind, safe_bind]
    refine safe_called (by decide) fun r _ => ?_
    cases r with
    | ok u =>
      refine ⟨⟨rfl, ⟨fun _ => ?_, fun _ => rfl⟩, fun _ => hcoordinator⟩, rfl⟩
      exact List.mem_singleton_self _
    | error e =>
      have hnot : ¬ Started [Event.called .coordinatorStart (.error e)] := by simp [Started]
      refine ⟨⟨rfl, ⟨fun h => absurd h (by simp), fun h => absurd h hnot⟩, fun h => absurd h hnot⟩,
        .inl ?_⟩
      exact List.mem_singleton_self _
  · exact ⟨tracks_nil, rfl⟩

/-- Registering pipelines goes forward, or a call fails. -/
theorem safe_registerPipelines (is : List ℕ) (h : Tracks p w) :
    (registerPipelines is).Safe contract (fun _ _ w' => Forward p w w') (fun e _ w' => Failed p w e w')
      w₀ w := by
  induction is generalizing w₀ w with
  | nil => exact .refl h
  | cons i is ih =>
    rw [registerPipelines, safe_bind, safe_bind]
    refine safe_called (by simp) fun r _ => ?_
    cases r with
    | ok u =>
      have hstep : Forward p w (w.called (.registerPipeline i) (.ok u)) :=
        .called (o := .registerPipeline i) h (by simp) (.ok u)
      exact (ih hstep.tracks).mono (fun _ _ _ hf => hstep.trans hf) fun _ _ _ hf => .after hstep hf
    | error e =>
      have hfailed : Failed p w (.exc e) (w.called (.registerPipeline i) (.error e)) :=
        .called (o := .registerPipeline i) h (by simp) (by simp [leaves])
      exact hfailed

/-- Creating tasks creates exactly these, or a call fails. -/
theorem safe_createTasks (created : List Task) (h : Tracks p w) :
    (createTasks created).Safe contract
      (fun _ _ w' => Tracks p w' ∧ createdTasks w'.trace = createdTasks w.trace ++ created)
      (fun e _ w' => Failed p w e w') w₀ w := by
  rw [createTasks, safe_bind, safe_note]
  refine fun _ => ⟨fun _ he => absurd he (by simp), ?_⟩
  rw [safe_modify]
  have hstarted : Started (w.mark (.created created)).trace ↔ Started w.trace := by simp [Started]
  refine ⟨⟨?_, h.started.trans hstarted.symm, fun hs => h.coordinator (hstarted.mp hs)⟩, ?_⟩
  · simp [h.tasks, creates]
  · simp [creates]

/-- With the health task all tasks of the pool are created. -/
theorem safe_launchHealth (h : Tracks p w) (hcreated : createdTasks w.trace = p.pipelineTasks) :
    p.launchHealth.Safe contract
      (fun _ _ w' => Tracks p w' ∧ createdTasks w'.trace = p.tasks) (fun e _ w' => Left p e w') w₀ w := by
  unfold launchHealth
  split
  · next hport =>
    rw [safe_bind, safe_bind]
    refine safe_called (by decide) fun r _ => ?_
    cases r with
    | ok u =>
      have hstep : Forward p w (w.called .createHealth (.ok u)) :=
        .called (o := .createHealth) h (by decide) (.ok u)
      refine (safe_createTasks _ hstep.tracks).mono (fun _ _ w' h' => ⟨h'.1, ?_⟩) fun _ _ _ he => he.left
      rw [h'.2, hstep.created, hcreated, tasks, healthTasks, if_pos hport]
    | error e =>
      have hfailed : Failed p w (.exc e) (w.called .createHealth (.error e)) :=
        .called (o := .createHealth) h (by decide) (by simp [leaves])
      exact hfailed.left
  · next hport => exact ⟨h, by rw [hcreated, tasks, healthTasks, if_neg hport, List.append_nil]⟩

/-- Before the loop everything that is awaited is created. -/
theorem safe_launch :
    p.launch.Safe contract (fun _ _ w' => Waiting p p.awaited w') (fun e _ w' => Left p e w')
      w₀ ⟨{}, []⟩ := by
  rw [launch, safe_bind]
  refine safe_startCoordinator.mono (fun _ _ w₁ h₁ => ?_) fun _ _ _ he => he
  rw [safe_bind]
  refine (safe_registerPipelines _ h₁.1).mono (fun _ _ w₂ h₂ => ?_) fun _ _ _ he => he.left
  rw [safe_bind]
  refine (safe_createTasks _ h₂.tracks).mono (fun _ _ w₃ h₃ => ?_) fun _ _ _ he => he.left
  have hpipelines : createdTasks w₃.trace = p.pipelineTasks := by
    rw [h₃.2, h₂.created, h₁.2, List.nil_append]
  rw [safe_bind]
  refine (safe_launchHealth h₃.1 hpipelines).mono (fun _ _ w₄ h₄ => ?_) fun _ _ _ he => he
  refine ⟨⟨h₄.1.tasks, h₄.1.started, h₄.1.coordinator⟩, h₄.2, List.mem_cons_self, fun t ht => .inl ?_,
    fun i hi => .inl ?_⟩
  · exact List.mem_cons_of_mem _ (List.mem_map_of_mem ht)
  · exact List.mem_cons_of_mem _ (List.mem_map_of_mem
      (List.mem_append_left _ (List.mem_map_of_mem (List.mem_range.mpr hi))))

/-- The loop ends, since each turn waits for less. -/
theorem safe_serve {fuel : ℕ} (hfuel : p.awaited.length < fuel) :
    (p.serve fuel).Safe contract
      (fun _ _ w' => Tracks p w' ∧ (Started w'.trace → Stopped w'.trace) ∧ Finished p w'.trace)
      (fun e _ w' => Left p e w') w₀ ⟨{}, []⟩ := by
  rw [serve, safe_bind]
  refine safe_launch.mono (fun _ w₁ w hw => ?_) fun _ _ _ he => he
  refine safe_iterate_measure (I := fun pending _ w => Waiting p pending w) (fun pending _ => pending.length)
    (fun pending w₀ w h => ?_) fuel (.inr hfuel) hw
  refine (safe_turn pending h).mono (fun r _ w' hr => ?_) fun _ _ _ he => he
  cases r with
  | inl rest => exact hr
  | inr u => exact ⟨hr.1.forward.tracks, hr.1.stopped, hr.2⟩

end WorkerPool

/-! ## The whole run -/

/-- One of the calls that were awaited has failed with an error that no handler of `run` catches. -/
def Interrupted (t : Trace Op Op.Ret Mark) : Prop := ∃ e ∈ failures t, isCaught e = false

/-- If the coordinator was started, it is told to stop; two calls that fail, or one error that no handler
catches, can prevent that. -/
def Settled (t : Trace Op Op.Ret Mark) : Prop :=
  Started t → Stopped t ∨ 2 ≤ (failures t).length ∨ Interrupted t

/-- What the outcome of the run says about the tasks. -/
def Accounts (p : WorkerPool) (t : Trace Op Op.Ret Mark) : Except RunError Unit → Prop
  | .ok () => Finished p t ∨ cancelledError ∈ found t
  | .error e => e ∈ found t ∧ e ≠ cancelledError

/-- The end of a run, and the outcome unless a call has failed. -/
def Concluded (p : WorkerPool) (r : Except RunError Unit) (w : World Op Op.Ret Mark PoolState) : Prop :=
  Tracks p w ∧ Settled w.trace ∧ (failures w.trace = [] → Accounts p w.trace r)

section

variable {p : WorkerPool} {w w' : World Op Op.Ret Mark PoolState} {e : RunError}

/-- A coordinator that is stopped if it was started has been settled. -/
theorem settled_of_stopped (h : Started w.trace → Stopped w.trace) : Settled w.trace :=
  fun hs => .inl (h hs)

/-- A settled coordinator stays settled. -/
theorem Settled.mono (hforward : Forward p w w') (h : Settled w.trace) : Settled w'.trace := by
  intro hs
  rcases h (hforward.started hs) with ⟨r, hstop⟩ | hlength | ⟨x, hx, huncaught⟩
  · exact .inl ⟨r, hforward.trace.subset hstop⟩
  · obtain ⟨s, heq⟩ := hforward.trace
    refine .inr (.inl ?_)
    rw [← heq, failures_append, List.length_append]
    omega
  · obtain ⟨s, heq⟩ := hforward.trace
    exact .inr (.inr ⟨x, by simp [← heq, hx], huncaught⟩)

/-- What accounts for the tasks still does so later. -/
theorem Accounts.mono {t t' : Trace Op Op.Ret Mark} {r : Except RunError Unit} (ht : t <+: t')
    (h : Accounts p t r) : Accounts p t' r := by
  cases r with
  | ok u => exact h.imp (.mono ht) (found_mono ht)
  | error e => exact ⟨found_mono ht h.1, h.2⟩

/-- A conclusion holds later on. -/
theorem Concluded.mono {r : Except RunError Unit} (hforward : Forward p w w') (h : Concluded p r w) :
    Concluded p r w' :=
  ⟨hforward.tracks, h.2.1.mono hforward, fun hquiet =>
    (h.2.2 (failures_eq_nil_mono hforward.trace hquiet)).mono hforward.trace⟩

/-- A call that has failed takes away what the outcome says. -/
theorem concluded_of_failure {r : Except RunError Unit} (htracks : Tracks p w) (hsettled : Settled w.trace)
    (he : e ∈ failures w.trace) : Concluded p r w :=
  ⟨htracks, hsettled, fun hquiet => absurd he (by simp [hquiet])⟩

/-- The handlers fail only with the second failure, unless the coordinator was told to stop. -/
theorem settled_of_left (hleft : Left p e w) {e' : RunError} (hfailed : Failed p w e' w')
    (hmore : Stopped w'.trace ∨ (failures w.trace).length < (failures w'.trace).length) :
    Settled w'.trace := by
  intro hs
  rcases hmore with hstop | hlength
  · exact .inl hstop
  · rcases hleft.2 with hfailure | ⟨hstop, _⟩
    · have hpos := List.length_pos_of_mem hfailure
      exact .inr (.inl (by omega))
    · obtain ⟨r, hcall⟩ := hstop (hfailed.forward.started hs)
      exact .inl ⟨r, hfailed.forward.trace.subset hcall⟩

end

namespace WorkerPool

variable {p : WorkerPool} {w₀ w : World Op Op.Ret Mark PoolState}

/-- What a handler leaves behind: the error `e` that was raised, now with the outcome `r`. -/
theorem concluded_of_down {e : RunError} {w' : World Op Op.Ret Mark PoolState} {r : Except RunError Unit}
    (hleft : Left p e w) (hdown : Down p w w')
    (haccounts : ∀ t, e ∈ found t → Accounts p t r) : Concluded p r w' := by
  refine ⟨hdown.forward.tracks, settled_of_stopped hdown.stopped, fun hquiet => haccounts _ ?_⟩
  rcases hleft.2 with hfailure | ⟨_, hfound⟩
  · rw [failures_eq_nil_mono hdown.forward.trace hquiet] at hfailure
    exact absurd hfailure List.not_mem_nil
  · exact found_mono hdown.forward.trace hfound

/-- The handlers of `run`. -/
theorem safe_handle {e : RunError} (hleft : Left p e w) :
    (p.handle (.error e)).attempt.Safe contract (fun r _ w' => Concluded p r w') (fun _ _ _ => False)
      w₀ w := by
  rw [safe_attempt]
  by_cases hcancelled : e = cancelledError
  · subst hcancelled
    refine (safe_forceCancel hleft.1).mono (fun u _ w' hdown => ?_) fun e' _ w' he => ?_
    · exact concluded_of_down hleft hdown fun t ht => .inr ht
    · exact concluded_of_failure he.1.forward.tracks (settled_of_left hleft he.1 he.2) he.1.failure
  · have hhandle : p.handle (.error e) =
        if isException e then p.cleanUp >>= fun _ => raise e else raise e := by
      rcases e with ⟨_ | _ | _ | _ | _ | _ | _ | _⟩ | _
      all_goals first | rfl | exact absurd rfl hcancelled
    rw [hhandle]
    split
    · rw [safe_bind]
      refine (safe_cleanUp hleft.1).mono (fun _ _ w' hdown => ?_) fun e' _ w' he => ?_
      · exact concluded_of_down hleft hdown fun t ht => ⟨ht, hcancelled⟩
      · exact concluded_of_failure he.1.forward.tracks (settled_of_left hleft he.1 he.2) he.1.failure
    · next hnot =>
      refine ⟨hleft.1, fun hs => ?_, fun hquiet => ?_⟩
      · rcases hleft.2 with hfailure | ⟨hstop, _⟩
        · exact .inr (.inr ⟨e, hfailure, by simp [isCaught, hnot, hcancelled]⟩)
        · exact .inl (hstop hs)
      · rcases hleft.2 with hfailure | ⟨_, hfound⟩
        · rw [hquiet] at hfailure
          exact absurd hfailure List.not_mem_nil
        · exact ⟨hfound, hcancelled⟩

/-- The `finally` block. -/
theorem safe_finish {r : Except RunError Unit} (h : Concluded p r w) :
    finish.Safe contract (fun _ _ w' => Settled w'.trace ∧ (failures w'.trace = [] → Accounts p w'.trace r))
      (fun e _ w' => Settled w'.trace ∧ (failures w'.trace = [] → Accounts p w'.trace (.error e))) w₀ w := by
  rw [finish, safe_bind, safe_read]
  split
  · rw [safe_bind]
    refine safe_called (by decide) fun completed _ => ?_
    have hforward : Forward p w (w.called .cancelShutdownWait completed) :=
      .called h.1 (by decide) completed
    cases completed with
    | true => exact (h.mono hforward).2
    | false =>
      have hfailure : cancelledError ∈ failures (w.called .cancelShutdownWait false).trace := by simp [leaves]
      exact (concluded_of_failure hforward.tracks (h.2.1.mono hforward) hfailure).2
  · exact h.2

/-- Every run of the pool meets its contract. -/
theorem safe_run {fuel : ℕ} (hfuel : p.awaited.length < fuel) :
    (p.run fuel).Safe contract
      (fun _ _ w' => Settled w'.trace ∧ (failures w'.trace = [] → Accounts p w'.trace (.ok ())))
      (fun e _ w' => Settled w'.trace ∧ (failures w'.trace = [] → Accounts p w'.trace (.error e)))
      ⟨{}, []⟩ ⟨{}, []⟩ := by
  unfold run
  split
  · next hnone =>
    refine ⟨fun hs => absurd hs (by simp [Started]), fun _ => .inl (.inr fun i hi => ?_)⟩
    omega
  · rw [safe_bind, safe_attempt]
    have hrest : ∀ ended w₀ w, (∀ r, ended = .ok r → Concluded p (.ok ()) w) →
        (∀ e, ended = .error e → Left p e w) →
        ((p.handle ended).attempt >>= fun handled => finish >>= fun _ => ofExcept handled).Safe contract
          (fun _ _ w' => Settled w'.trace ∧ (failures w'.trace = [] → Accounts p w'.trace (.ok ())))
          (fun e _ w' => Settled w'.trace ∧ (failures w'.trace = [] → Accounts p w'.trace (.error e)))
          w₀ w := by
      intro ended w₀ w hok herror
      rw [safe_bind]
      have hhandled : (p.handle ended).attempt.Safe contract (fun r _ w' => Concluded p r w')
          (fun _ _ _ => False) w₀ w := by
        cases ended with
        | ok u => exact hok u rfl
        | error e => exact safe_handle (herror e rfl)
      refine hhandled.mono (fun r _ w₁ h₁ => ?_) fun _ _ _ he => he.elim
      rw [safe_bind]
      refine (safe_finish h₁).mono (fun _ _ w' h' => ?_) fun _ _ _ he => he
      cases r with
      | ok u => exact h'
      | error e => exact h'
    refine (safe_serve hfuel).mono (fun _ w₁ w h => ?_) fun e w₁ w h => ?_
    · exact hrest (.ok ()) w₁ w (fun _ _ => ⟨h.1, settled_of_stopped h.2.1, fun _ => .inl h.2.2⟩) (by simp)
    · exact hrest (.error e) w₁ w (by simp) fun e' he => by cases he; exact h

end WorkerPool

section Runs

variable {h : Handler Op Op.Ret Mark}

/-- Every answer to a wait for the first task reports one that is done. -/
def AnswersWaits (h : Handler Op Op.Ret Mark) : Prop :=
  ∀ t pending answer, h t (.waitFirst pending) = some answer → doneOf pending answer ≠ []

/-- An environment that answers waits answers each wait of a run. -/
theorem waitAnswered_of_answersWaits (hwaits : AnswersWaits h) (t : Trace Op Op.Ret Mark)
    (e : Event Op Op.Ret Mark) (he : Answered h t e) : WaitAnswered t e :=
  fun pending answer heq => hwaits t pending answer (he _ _ heq).symm

/-- Besides the tasks of the pipelines at most that of the health check and the shutdown are
awaited. -/
theorem length_awaited_le (p : WorkerPool) : p.awaited.length ≤ p.pipelines + 2 := by
  simp only [WorkerPool.awaited, WorkerPool.tasks, WorkerPool.pipelineTasks, WorkerPool.healthTasks,
    List.length_cons, List.length_map, List.length_append, List.length_range]
  split <;> simp

/-- What the contract says about a run whose waits are answered. -/
theorem concluded_run (p : WorkerPool) (hwaits : AnswersWaits h) {fuel : ℕ} (hfuel : p.pipelines + 2 < fuel) :
    Along StopsAfterTasks [] ((p.run fuel).run h ⟨{}, []⟩).2.trace ∧
      match (p.run fuel).run h ⟨{}, []⟩ with
      | (.returned (), w) => Settled w.trace ∧ (failures w.trace = [] → Accounts p w.trace (.ok ()))
      | (.raised e, w) => Settled w.trace ∧ (failures w.trace = [] → Accounts p w.trace (.error e))
      | (.hung, _) => False := by
  have hsafe := WorkerPool.safe_run (p := p) (lt_of_le_of_lt (length_awaited_le p) hfuel)
  obtain ⟨t, ht, hpost⟩ := hsafe.run_alone h
  obtain ⟨t', ht', hanswered⟩ := answered_run h (p.run fuel) ⟨{}, []⟩
  obtain rfl : t = t' := List.append_cancel_left (ht.symm.trans ht')
  obtain ⟨halong, hend⟩ := hpost (hanswered.mono (waitAnswered_of_answersWaits hwaits))
  rw [List.nil_append] at ht
  refine ⟨ht ▸ halong, ?_⟩
  cases hrun : (p.run fuel).run h ⟨{}, []⟩ with
  | mk outcome w =>
    rw [hrun] at hend
    cases outcome with
    | returned u =>
      obtain ⟨_, hend⟩ := hend
      exact hend
    | raised e =>
      obtain ⟨_, hend⟩ := hend
      exact hend
    | hung => exact hend

/-- A run of the pool ends.  The coordinator is told to stop only when all tasks have been reported as
done, and a coordinator that was started is told to stop, unless two of the awaited calls have failed, or
one of them with an error that no handler catches. -/
theorem run_stops_coordinator (p : WorkerPool) (hwaits : AnswersWaits h) {fuel : ℕ}
    (hfuel : p.pipelines + 2 < fuel) :
    ((p.run fuel).run h ⟨{}, []⟩).1 ≠ .hung ∧
      Along StopsAfterTasks [] ((p.run fuel).run h ⟨{}, []⟩).2.trace ∧
      Settled ((p.run fuel).run h ⟨{}, []⟩).2.trace := by
  obtain ⟨halong, hend⟩ := concluded_run p hwaits hfuel
  cases hrun : (p.run fuel).run h ⟨{}, []⟩ with
  | mk outcome w =>
    rw [hrun] at hend halong
    cases outcome with
    | returned u => exact ⟨by simp, halong, hend.1⟩
    | raised e => exact ⟨by simp, halong, hend.1⟩
    | hung => exact hend.elim

/-- When none of the awaited calls has failed, the pool returns because of a shutdown request, because all
pipelines have ended without an error, or because the error of a task was a cancellation, which is taken
for one of the pool itself; otherwise it raises the error of a task. -/
theorem run_accounts_for_tasks (p : WorkerPool) (hwaits : AnswersWaits h) {fuel : ℕ}
    (hfuel : p.pipelines + 2 < fuel) (hquiet : failures ((p.run fuel).run h ⟨{}, []⟩).2.trace = []) :
    match (p.run fuel).run h ⟨{}, []⟩ with
    | (.returned (), w) => ShutdownReported w.trace ∨ (∀ i < p.pipelines, EndedWell w.trace i) ∨
        cancelledError ∈ found w.trace
    | (.raised e, w) => e ∈ found w.trace ∧ e ≠ cancelledError
    | (.hung, _) => False := by
  obtain ⟨-, hend⟩ := concluded_run p hwaits hfuel
  cases hrun : (p.run fuel).run h ⟨{}, []⟩ with
  | mk outcome w =>
    rw [hrun] at hend hquiet
    cases outcome with
    | returned u => exact or_assoc.mp (hend.2 hquiet)
    | raised e => exact hend.2 hquiet
    | hung => exact hend

end Runs

section Witness

/-- The pipelines end one by one, the last one first, as it is told. -/
def lastFirst (ending : ℕ → TaskEnd) : Handler Op Op.Ret Mark
  | _, .waitFirst pending => pending.getLast?.map fun x => [x]
  | _, .taskEnd i => ending i
  | _, .waitTimeout tasks => some tasks
  | _, .gather _ => true
  | _, .cancelShutdownWait => true
  | _, .coordinatorStart => .ok ()
  | _, .registerPipeline _ => .ok ()
  | _, .createHealth => .ok ()
  | _, .coordinatorStop => .ok ()
  | _, .healthException => none
  | _, .stopPipeline _ => ()
  | _, .stopHealth => ()
  | _, .cancel _ => ()

/-- The last run of the second pipeline has lost its lease. -/
def leaseLostEnd : ℕ → TaskEnd
  | 1 => .finished (some .leaseLost)
  | _ => .finished none

/-- The environment in which the last task ends first answers every wait. -/
theorem answersWaits_lastFirst (ending : ℕ → TaskEnd) : AnswersWaits (lastFirst ending) := by
  intro t pending answer hanswer
  obtain ⟨x, hx, rfl⟩ := Option.map_eq_some_iff.mp hanswer
  exact List.ne_nil_of_mem (mem_doneOf.mpr ⟨List.mem_of_getLast? hx, List.mem_singleton_self x⟩)

/-- Two pipelines of which one loses its lease: the coordinator is stopped after both tasks. -/
theorem run_stops_coordinator_leaseLost :
    Started (((⟨2, true, false⟩ : WorkerPool).run 5).run (lastFirst leaseLostEnd) ⟨{}, []⟩).2.trace ∧
      (((⟨2, true, false⟩ : WorkerPool).run 5).run (lastFirst leaseLostEnd) ⟨{}, []⟩).1 ≠ .hung ∧
      Along StopsAfterTasks []
        (((⟨2, true, false⟩ : WorkerPool).run 5).run (lastFirst leaseLostEnd) ⟨{}, []⟩).2.trace ∧
      Settled (((⟨2, true, false⟩ : WorkerPool).run 5).run (lastFirst leaseLostEnd) ⟨{}, []⟩).2.trace :=
  ⟨List.mem_cons_self, run_stops_coordinator _ (answersWaits_lastFirst leaseLostEnd) (by decide)⟩

/-- The run of the same pool raises an error that was found, or says how its pipelines ended. -/
theorem run_accounts_for_tasks_leaseLost :
    match ((⟨2, true, false⟩ : WorkerPool).run 5).run (lastFirst leaseLostEnd) ⟨{}, []⟩ with
    | (.returned (), w) => ShutdownReported w.trace ∨ (∀ i < 2, EndedWell w.trace i) ∨
        cancelledError ∈ found w.trace
    | (.raised e, w) => e ∈ found w.trace ∧ e ≠ cancelledError
    | (.hung, _) => False :=
  run_accounts_for_tasks ⟨2, true, false⟩ (answersWaits_lastFirst leaseLostEnd) (by decide : 2 + 2 < 5) rfl

/-- A pipeline whose last run was cancelled takes the others down, and nothing is raised. -/
example : (((⟨2, true, false⟩ : WorkerPool).run 5).run
    (lastFirst fun _ => .finished (some cancelledError)) ⟨{}, []⟩).1 = .returned () := rfl

end Witness

end AgoraEtl.Pool
