import AgoraEtl.Effect.Safety
import AgoraEtl.Delivery.Support

/-!
# The run lifecycle

`PipelineExecutor.execute` with the lifecycle controller behind it: the checkpoint is restored, the
middlewares are started, the writer and the dead-letter sink are opened, the source is opened,
streamed and closed, an error of the run is routed to the dead-letter queue, and everything is shut
down again.

The lane that moves the records is a single call here, `stream`; it and every other awaited
operation may raise anything.  Trace spans and log lines are left out.
-/

namespace AgoraEtl.Session

open Effect Program

variable {α χ β : Type}

/-! ## Errors -/

/-- A record-scoped failure of the source. -/
structure SourceRecordError (α χ : Type) : Type where
  original : Exc
  stage : String
  record : Option α
  checkpoint : Option χ
  source : Option String
  /-- A callback for the time after the record was routed is set. -/
  onHandled : Bool
  deriving DecidableEq

/-- What an awaited operation of the run can raise. -/
inductive RunError (α χ : Type) : Type where
  | exc (e : Exc)
  | sourceRecord (e : SourceRecordError α χ)
  | identityMismatch (message : String)
  /-- The copy of a `PipelineError` that `with_context` returns. -/
  | inContext (original : Exc) (pipelineId runId stage sourceName : String)
  deriving DecidableEq

/-- The attributes of a `PipelineError` that the executor reads. -/
structure PipelineErrorInfo : Type where
  stage : Option String
  sourceName : Option String

namespace RunError

/-- The error is an instance of `Exception`. -/
def isException : RunError α χ → Bool
  | exc e => e.isException
  | _ => true

/-- The error is a `SourceIdentityMismatchError`. -/
def isIdentityMismatch : RunError α χ → Bool
  | identityMismatch _ => true
  | _ => false

/-- The error as the exception that the dead-letter queue is given. -/
def asException : RunError α χ → Exc
  | exc e => if e.isException then e else .external ⟨"Exception", e.message, .other, none, none, none⟩
  | sourceRecord e => e.original
  | identityMismatch message =>
    .external ⟨"SourceIdentityMismatchError", message, .other, none, none, none⟩
  | inContext original _ _ _ _ => original

end RunError

/-! ## Calls -/

/-- The sinks that the session opens and closes. -/
inductive Sink : Type where
  | writer
  | dlq
  deriving DecidableEq

/-- Where a cleanup call stands: in the rollback of a failed startup or in the shutdown. -/
inductive Site : Type where
  | rollback
  | shutdown
  deriving DecidableEq

/-- What the run fence is asked for. -/
inductive Guarded : Type where
  | dlqWrite
  | writerFlush
  deriving DecidableEq

/-- The awaited operations of the session, each of which can raise. -/
inductive Await (α χ : Type) : Type where
  | load (key : String)
  | prepareResume (checkpoint : Option χ)
  | onStart (index : ℕ)
  | onStop (site : Site) (index : ℕ)
  | opening (sink : Sink)
  | flush (sink : Sink)
  | close (site : Site) (sink : Sink)
  | validateFence (guarded : Guarded)
  | currentCheckpoint
  | dlqWrite (record : DLQRecord α χ)
  /-- `on_handled` of the record error. -/
  | onHandled
  | sourceOpen
  /-- The lane moves the records of the source. -/
  | stream
  | sourceClose
  | storeClose
  /-- The live-metrics callback. -/
  | liveMetrics
  /-- Wait for the task that reports live metrics. -/
  | joinLiveMetrics

/-- What an awaited operation returns. -/
@[reducible] def Await.Value : Await α χ → Type
  | .load _ => Option χ
  | .validateFence _ => Bool
  | .currentCheckpoint => Option χ
  | _ => Unit

/-- All operations of the session. -/
inductive Op (α χ : Type) : Type where
  | await (a : Await α χ)
  /-- `getattr(sink, "_open_rolled_back", False)`. -/
  | openRolledBack (sink : Sink)

/-- The answers of an operation. -/
@[reducible] def Op.Ret : Op α χ → Type
  | .await a => Except (RunError α χ) a.Value
  | .openRolledBack _ => Bool

/-! ## State -/

/-- The metrics that the session itself updates. -/
structure SessionMetrics (χ : Type) : Type where
  recordsErrored : ℕ := 0
  dlqFailureCount : ℕ := 0
  checkpointFailureCount : ℕ := 0
  lastCheckpoint : Option χ := none
  deriving DecidableEq

/-- `PipelineRunState`, with the local that remembers the live-metrics task. -/
structure PipelineRunState (α χ : Type) : Type where
  middlewaresStarted : Bool := false
  writerOpened : Bool := false
  dlqOpened : Bool := false
  interrupted : Bool := false
  runError : Option (RunError α χ) := none
  liveMetricsTask : Bool := false
  metrics : SessionMetrics χ := {}
  deriving DecidableEq

/-- `suppress_shutdown_exceptions`. -/
def PipelineRunState.suppressShutdownExceptions (s : PipelineRunState α χ) : Bool :=
  s.interrupted || s.runError.isSome

/-- The programs of the session. -/
abbrev Program (α χ : Type) : Type → Type :=
  Effect.Program (Op α χ) Op.Ret Empty (PipelineRunState α χ) (RunError α χ)

/-- The events of a run. -/
abbrev RunTrace (α χ : Type) : Type := Trace (Op α χ) Op.Ret Empty

/-- A run state with the events that led to it. -/
abbrev RunWorld (α χ : Type) : Type := World (Op α χ) Op.Ret Empty (PipelineRunState α χ)

/-- What the session runs. -/
structure PipelineRuntimeSpec (α χ : Type) : Type where
  delivery : DeliveryEngine α χ
  /-- The number of middlewares of the chain. -/
  middlewares : ℕ
  /-- The source can be resumed from a checkpoint. -/
  checkpointCapable : Bool
  /-- A live-metrics callback is configured. -/
  liveMetricsCallback : Bool
  /-- The instances of `PipelineError` among the exceptions from outside, with their attributes. -/
  pipelineErrors : ExternalError → Option PipelineErrorInfo

/-- A run with the given number of middlewares, a dead-letter sink and a checkpoint store. -/
def PipelineRuntimeSpec.standard (middlewares : ℕ) : PipelineRuntimeSpec ℕ ℕ where
  delivery := .standard true
  middlewares := middlewares
  checkpointCapable := true
  liveMetricsCallback := false
  pipelineErrors := fun _ => none

/-- What an awaited operation returns when nothing goes wrong. -/
def Await.success : (a : Await α χ) → a.Value
  | .load _ => none
  | .prepareResume _ => ()
  | .onStart _ => ()
  | .onStop _ _ => ()
  | .opening _ => ()
  | .flush _ => ()
  | .close _ _ => ()
  | .validateFence _ => true
  | .currentCheckpoint => none
  | .dlqWrite _ => ()
  | .onHandled => ()
  | .sourceOpen => ()
  | .stream => ()
  | .sourceClose => ()
  | .storeClose => ()
  | .liveMetrics => ()
  | .joinLiveMetrics => ()

/-- The code under the session when the given operations raise. -/
def failing (errors : Await α χ → Option (RunError α χ)) : Handler (Op α χ) Op.Ret Empty
  | _, .await a =>
    match errors a with
    | some exc => .error exc
    | none => .ok a.success
  | _, .openRolledBack _ => false

/-- Await an operation: it raises or returns a value. -/
def invoke (a : Await α χ) : Program α χ a.Value := do
  let r ← perform (.await a)
  ofExcept r

/-- `try … except Exception as exc`. -/
def catchException (p : Program α χ β) (handler : RunError α χ → Program α χ β) :
    Program α χ β := do
  let r ← attempt p
  match r with
  | .ok v => pure v
  | .error exc => if exc.isException then handler exc else raise exc

/-- The rule for `try … except Exception`. -/
theorem safe_catchException {C : Contract (Op α χ) Op.Ret Empty (PipelineRunState α χ)}
    {Q : β → RunWorld α χ → RunWorld α χ → Prop}
    {E : RunError α χ → RunWorld α χ → RunWorld α χ → Prop}
    {p : Program α χ β} {handler : RunError α χ → Program α χ β} {w₀ w : RunWorld α χ}
    (h : p.Safe C Q (fun exc w₀ w =>
      if exc.isException then (handler exc).Safe C Q E w₀ w else E exc w₀ w) w₀ w) :
    (catchException p handler).Safe C Q E w₀ w := by
  rw [catchException, safe_bind, safe_attempt]
  refine h.mono (fun v w₀ w hv => hv) fun exc w₀ w hexc => ?_
  dsimp only
  by_cases hexception : exc.isException = true
  · rw [if_pos hexception] at hexc ⊢
    exact hexc
  · rw [if_neg hexception] at hexc ⊢
    exact hexc

/-! ## Middlewares -/

/-- The loop of `stop_all` and of the rollback of `start_all`: an exception is logged. -/
def stopEach (site : Site) : List ℕ → Program α χ Unit
  | [] => pure ()
  | index :: rest => do
    catchException (invoke (.onStop site index)) fun _ => pure ()
    stopEach site rest

/-- The loop of `start_all`; the middlewares that have started are listed newest first. -/
def startFrom (started : List ℕ) : List ℕ → Program α χ Unit
  | [] => pure ()
  | index :: rest => do
    -- `_rollback_started_middlewares` stops the failing middleware first
    catchException (invoke (.onStart index)) fun exc => do
      stopEach .rollback (index :: started)
      raise exc
    startFrom (index :: started) rest

namespace PipelineRuntimeSpec

variable (spec : PipelineRuntimeSpec α χ)

/-- `MiddlewareChain.start_all`. -/
def startAll : Program α χ Unit := startFrom [] (List.range spec.middlewares)

/-- `MiddlewareChain.stop_all`. -/
def stopAll : Program α χ Unit := stopEach .shutdown (List.range spec.middlewares).reverse

/-! ## Startup -/

/-- The policy continues after this error of the checkpoint restore. -/
def Tolerated (exc : RunError α χ) : Prop :=
  exc.isIdentityMismatch = false ∧ exc.isException = true ∧
    spec.delivery.checkpointFailurePolicy = .logAndContinue

instance (exc : RunError α χ) : Decidable (spec.Tolerated exc) :=
  inferInstanceAs (Decidable (_ ∧ _ ∧ _))

/-- The `except` clauses of `restore_checkpoint` and what follows them. -/
def settleRestore : Except (RunError α χ) (Option χ) → Program α χ Unit
  | .ok none => pure ()
  | .ok (some checkpoint) =>
    modify fun s => { s with metrics := { s.metrics with lastCheckpoint := some checkpoint } }
  | .error exc =>
    if exc.isIdentityMismatch = false ∧ exc.isException then do
      modify fun s => { s with metrics := { s.metrics with
        checkpointFailureCount := s.metrics.checkpointFailureCount + 1 } }
      if spec.delivery.checkpointFailurePolicy = .logAndContinue then pure () else raise exc
    else raise exc

/-- `restore_checkpoint`. -/
def restoreCheckpoint : Program α χ Unit :=
  if spec.delivery.checkpointStore = false then pure ()
  else if spec.checkpointCapable = false then pure ()
  else do
    let loaded ← attempt do
      let checkpoint ← invoke (.load spec.delivery.checkpointKey)
      invoke (.prepareResume checkpoint)
      pure checkpoint
    spec.settleRestore loaded

/-- Close a sink of a failed startup unless its own `open` has rolled back. -/
def closeAfterOpenFailure (sink : Sink) : Program α χ Unit :=
  catchException
    (do
      let rolledBack ← perform (.openRolledBack sink)
      if rolledBack then pure () else invoke (.close .rollback sink))
    fun _ => pure ()

/-- The handler of `open_runtime_sinks`, with `rollback_open_failure`; the open of the writer was
attempted in any case. -/
def failOpen (dlqOpenAttempted : Bool) (exc : RunError α χ) : Program α χ (Bool × Bool) :=
  if exc.isException then do
    (if dlqOpenAttempted then closeAfterOpenFailure .dlq else pure ())
    closeAfterOpenFailure .writer
    raise exc
  else raise exc

/-- `open_runtime_sinks`. -/
def openRuntimeSinks : Program α χ (Bool × Bool) := do
  let writerOpen ← attempt (invoke (.opening .writer))
  match writerOpen with
  | .error exc => failOpen false exc
  | .ok () =>
    if spec.delivery.dlqSink then do
      let dlqOpen ← attempt (invoke (.opening .dlq))
      match dlqOpen with
      | .error exc => failOpen true exc
      | .ok () => pure (true, true)
    else pure (true, false)

/-- `start_runtime`. -/
def startRuntime : Program α χ Unit := do
  spec.startAll
  modify fun s => { s with middlewaresStarted := true }
  let opened ← spec.openRuntimeSinks
  modify fun s => { s with writerOpened := opened.1, dlqOpened := opened.2 }

/-! ## The stream and its error -/

/-- `_run_stream`. -/
def runStream : Program α χ Unit := do
  invoke .sourceOpen
  let streamed ← attempt (invoke .stream)
  match streamed with
  | .ok () => invoke .sourceClose
  | .error exc => do
    catchException (invoke .sourceClose) fun _ => pure ()
    raise exc

/-- `assert_run_fence_active`. -/
def assertRunFenceActive (guarded : Guarded) : Program α χ Unit :=
  if spec.delivery.runFence then do
    let active ← invoke (.validateFence guarded)
    if active then pure ()
    else raise (.exc (.fenceLost
      "Pipeline run lost its distributed lease fence before a side effect."))
  else pure ()

/-- The checkpoint of a dead-letter record: the given one or the current one of the source. -/
def checkpointOrCurrent : Option χ → Program α χ (Option χ)
  | some checkpoint => pure (some checkpoint)
  | none => invoke .currentCheckpoint

/-- `DLQWriter.write` for an error of the run. -/
def writeToDlq (stage : String) (exc : Exc) (record : Option α) (checkpoint : Option χ)
    (source : Option String) : Program α χ Bool :=
  if spec.delivery.dlqSink = false ∨ exc.dlqEligible = false then pure false
  else do
    let written ← attempt do
      spec.assertRunFenceActive .dlqWrite
      let value ← checkpointOrCurrent checkpoint
      invoke (.dlqWrite
        { spec.delivery.dlqRecord stage exc record record none value none with
          source := source.getD spec.delivery.sourceName })
    match written with
    | .ok () => pure true
    | .error dlqExc =>
      if dlqExc.isException then do
        modify fun s => { s with metrics := { s.metrics with
          dlqFailureCount := s.metrics.dlqFailureCount + 1 } }
        if spec.delivery.dlqFailurePolicy = .raise then raise dlqExc else pure false
      else raise dlqExc

/-- The part of `_handle_run_error` that routes the error to the dead-letter queue. -/
def routeRunError (exc : RunError α χ) : Program α χ Unit := do
  modify fun s => { s with metrics := { s.metrics with
    recordsErrored := s.metrics.recordsErrored + 1 } }
  let s ← read
  if s.dlqOpened = false then pure ()
  else
    match exc with
    | .sourceRecord e => do
      let routed ← spec.writeToDlq e.stage e.original e.record e.checkpoint e.source
      if routed ∧ e.onHandled then invoke .onHandled else pure ()
    | exc => do
      let _ ← spec.writeToDlq "source_stream" exc.asException none none none
      pure ()

/-- `_handle_run_error`. -/
def handleRunError (exc : RunError α χ) : Program α χ Unit :=
  match exc with
  | .exc .keyboardInterrupt => modify fun s => { s with interrupted := true }
  | exc => do
    modify fun s => { s with runError := some exc }
    match exc with
    | .exc (.fenceLost _) => pure ()
    | .exc (.recordDelivery _) => pure ()
    | .exc (.checkpointSave _) => pure ()
    | exc => spec.routeRunError exc

/-! ## Shutdown -/

/-- `_capture` of `shutdown_runtime_components`: the first exception is kept. -/
def capture (step : Program α χ Unit) (firstError : Option (RunError α χ)) :
    Program α χ (Option (RunError α χ)) := do
  let r ← attempt step
  match r with
  | .ok () => pure firstError
  | .error exc =>
    if exc.isException then pure (firstError.orElse fun _ => some exc) else raise exc

/-- The rule for a shutdown step. -/
theorem safe_capture {C : Contract (Op α χ) Op.Ret Empty (PipelineRunState α χ)}
    {Q : Option (RunError α χ) → RunWorld α χ → RunWorld α χ → Prop}
    {E : RunError α χ → RunWorld α χ → RunWorld α χ → Prop}
    {step : Program α χ Unit} {firstError : Option (RunError α χ)} {w₀ w : RunWorld α χ}
    (h : step.Safe C (fun _ => Q firstError)
      (fun exc w₀ w =>
        if exc.isException then Q (firstError.orElse fun _ => some exc) w₀ w
        else E exc w₀ w) w₀ w) :
    (capture step firstError).Safe C Q E w₀ w := by
  rw [capture, safe_bind, safe_attempt]
  refine h.mono (fun _ _ w hw => hw) fun exc w₀ w hw => ?_
  dsimp only
  by_cases hexception : exc.isException = true
  · rw [if_pos hexception] at hw ⊢
    exact hw
  · rw [if_neg hexception] at hw ⊢
    exact hw

/-- Flush and close a sink that was opened. -/
def flushAndClose (sink : Sink) (opened : Bool) (flush : Program α χ Unit)
    (firstError : Option (RunError α χ)) : Program α χ (Option (RunError α χ)) :=
  if opened then do
    let flushed ← capture flush firstError
    capture (invoke (.close .shutdown sink)) flushed
  else pure firstError

/-- `WriterTransport.flush`. -/
def flushWriter : Program α χ Unit := do
  spec.assertRunFenceActive .writerFlush
  invoke (.flush .writer)

/-- `shutdown_runtime_components`. -/
def shutdownRuntime : Program α χ (Option (RunError α χ)) := do
  let s ← read
  let stopped ← (if s.middlewaresStarted then capture spec.stopAll none else pure none)
  let dlqClosed ← flushAndClose .dlq (s.dlqOpened && spec.delivery.dlqSink)
    (invoke (.flush .dlq)) stopped
  let writerClosed ← flushAndClose .writer s.writerOpened spec.flushWriter dlqClosed
  let firstError ←
    (if spec.delivery.checkpointStore then capture (invoke .storeClose) writerClosed
    else pure writerClosed)
  pure (if s.suppressShutdownExceptions then none else firstError)

/-! ## The run -/

/-- The first live-metrics callback and the task that repeats it. -/
def startLiveMetrics : Program α χ Unit :=
  if spec.liveMetricsCallback then do
    catchException (invoke .liveMetrics) fun _ => pure ()
    modify fun s => { s with liveMetricsTask := true }
  else pure ()

/-- The body of the `try` statement of `execute`. -/
def runBody : Program α χ Unit := do
  spec.startRuntime
  spec.startLiveMetrics
  runStream

/-- The `except` clauses of `execute`: a cancellation is kept for later. -/
def handleOutcome (outcome : Except (RunError α χ) Unit) :
    Program α χ (Option (RunError α χ)) :=
  match outcome with
  | .ok () => pure none
  | .error (.exc .cancelled) => do
    modify fun s => { s with interrupted := true }
    pure (some (.exc .cancelled))
  | .error exc => do
    spec.handleRunError exc
    pure none

/-- The `finally` clause of `execute`. -/
def finish : Program α χ (Option (RunError α χ)) := do
  let s ← read
  (if s.liveMetricsTask then catchException (invoke .joinLiveMetrics) fun _ => pure ()
  else pure ())
  spec.shutdownRuntime

/-- `isinstance(exc, PipelineError)`, with the attributes. -/
def pipelineErrorInfo : Exc → Option PipelineErrorInfo
  | .external e => spec.pipelineErrors e
  | .fenceLost _ => some ⟨some "fencing", none⟩
  | _ => none

/-- The `or` of an optional string and a default. -/
def orDefault (value : Option String) (default : String) : String :=
  (value.filter fun s => s ≠ "").getD default

/-- A `PipelineError` is raised as a copy with the context of the run, any other exception as it
is. -/
def inContext (original : Exc) (stage : String) : RunError α χ :=
  match spec.pipelineErrorInfo original with
  | none => .exc original
  | some info => .inContext original spec.delivery.pipelineId spec.delivery.runId
    (orDefault info.stage stage) (orDefault info.sourceName spec.delivery.sourceName)

/-- The terminal error for a stored error of the run: the wrapper of the runtime is removed. -/
def terminalError : RunError α χ → RunError α χ
  | .exc (.recordDelivery original) => spec.inContext original "sink"
  | .exc (.checkpointSave original) => spec.inContext original "source_stream"
  | .exc original => spec.inContext original "source_stream"
  | .sourceRecord e => spec.inContext e.original (orDefault (some e.stage) "source_stream")
  | e => e

/-- `_raise_terminal_error`, after a cancellation was raised again. -/
def raiseTerminalError (cancellation shutdownError : Option (RunError α χ)) :
    Program α χ Unit := do
  let s ← read
  match cancellation, s.runError, shutdownError with
  | some exc, _, _ => raise exc
  | none, some exc, _ => raise (spec.terminalError exc)
  | none, none, some exc => raise exc
  | none, none, none => pure ()

/-- The `finally` clause of `execute` and what follows the statement. -/
def conclude (handled : Except (RunError α χ) (Option (RunError α χ))) :
    Program α χ (SessionMetrics χ) := do
  let shutdownError ← spec.finish
  -- what a handler has raised is raised again after the `finally` clause
  let cancellation ← ofExcept handled
  spec.raiseTerminalError cancellation shutdownError
  let s ← read
  pure s.metrics

/-- `PipelineExecutor.execute`. -/
def execute : Program α χ (SessionMetrics χ) := do
  spec.restoreCheckpoint
  let outcome ← attempt spec.runBody
  let handled ← attempt (spec.handleOutcome outcome)
  spec.conclude handled

/-- Run the pipeline. -/
def run (h : Handler (Op α χ) Op.Ret Empty) :
    Outcome (RunError α χ) (SessionMetrics χ) × RunWorld α χ :=
  spec.execute.run h ⟨{}, []⟩

end PipelineRuntimeSpec

end AgoraEtl.Session
