import AgoraEtl.Effect.Program
import AgoraEtl.Failures

/-!
# Delivery value objects, run state and calls

The data of the delivery engine: the failure policies, write results, dead-letter records, typed
commit outcomes and the mutable run state, together with the calls by which the runtime reaches the
code under it (source, middlewares, writer, dead-letter sink, checkpoint store, hooks) and the marks
that statements about a run refer to.

Records are object references, so equality of records is object identity.  Wall-clock times, log
lines and trace spans are left out.
-/

namespace AgoraEtl

open Effect

/-! ## Policies -/

/-- Policy for failures while writing to the DLQ sink. -/
inductive DLQFailurePolicy : Type where
  | logOnly
  | raise
  deriving DecidableEq, Repr

/-- Policy for checkpoint-store failures. -/
inductive CheckpointFailurePolicy : Type where
  | failClosed
  | logAndContinue
  deriving DecidableEq, Repr

/-- Policy for sink delivery failures after middleware processing. -/
inductive SinkFailurePolicy : Type where
  | failClosed
  | logAndContinue
  deriving DecidableEq, Repr

/-! ## Value objects -/

/-- A success or discard callback, by its identity.  Where the source has one callable or `None`, a
list of hooks stands for the callable that runs them in order, and the empty list for `None`. -/
abbrev Hook : Type := ℕ

/-- A future or task, by its identity. -/
abbrev Future : Type := ℕ

/-- Outcome of a `Writer.write()` call. -/
structure WriteResult : Type where
  written : Bool
  errors : List Exc
  deriving DecidableEq, Repr

/-- `WriteResult.ok`. -/
def WriteResult.ok (wr : WriteResult) : Bool := wr.written && wr.errors.isEmpty

/-- The details of a dead-letter record: the details the exception carried, if any, and the
failure decision under the reserved key. -/
structure FailureDetails : Type where
  existing : Option DlqDetails
  failure : FailureDecision
  deriving DecidableEq, Repr

/-- Dead-letter payload for a failed record. -/
structure DLQRecord (α χ : Type) : Type where
  pipelineId : String
  runId : String
  stage : String
  errorType : String
  errorMessage : String
  record : Option α
  source : String
  checkpoint : Option χ
  details : FailureDetails
  middleware : Option String
  originalRecord : Option α
  processedRecord : Option α

/-- Persisted progress snapshot for a pipeline source. -/
structure Checkpoint (χ : Type) : Type where
  pipelineId : String
  runId : String
  source : String
  value : χ
  sourceIdentity : Option String

/-- A record of the source with its checkpoint and delivery callback. -/
structure SourceRecord (α χ : Type) : Type where
  raw : α
  checkpoint : Option χ
  onSuccess : List Hook

/-- A batch of the source; the checkpoint is what `current_checkpoint()` returns right after the
batch was emitted. -/
structure SourceBatch (α χ : Type) : Type where
  rows : List α
  checkpoint : Option χ
  deriving DecidableEq

/-- A processed record waiting for the next batch write. -/
structure PendingWrite (α χ : Type) : Type where
  processed : α
  raw : α
  checkpoint : Option χ
  onSuccess : List Hook

/-- Structured middleware failure surfaced to the runtime. -/
structure MiddlewareFailure (α : Type) : Type where
  stage : String
  record : α
  middleware : String
  exception : Exc

/-- A failed batch: the exception and the middleware that caused it. -/
structure BatchFailure : Type where
  exception : Exc
  middleware : String

/-- Result of running a batch through the chain.  `passthrough` says that the results are the raw
batch itself, the same list object. -/
structure BatchProcessResult (α : Type) : Type where
  results : List (Option α)
  passthrough : Bool
  failure : Option BatchFailure

/-- Typed delivery outcomes of single records. -/
inductive CommitOutcome (χ : Type) : Type where
  | written (checkpoint : Option χ) (onSuccess : List Hook)
  | dropped (checkpoint : Option χ) (onSuccess : List Hook)
  | erroredRouted (checkpoint : Option χ) (onSuccess : List Hook)
  | erroredUnrouted (exc : Exc)

/-! ## Run state -/

/-- Mutable checkpoint state during pipeline execution. -/
structure CheckpointState (χ : Type) : Type where
  processedCount : ℕ
  lastSavedValue : Option χ

namespace CheckpointState

variable {χ : Type}

/-- `increment_by`. -/
def incrementBy (c : CheckpointState χ) (count : ℕ) : CheckpointState χ :=
  { c with processedCount := c.processedCount + count }

/-- `should_save`, for a checkpoint value that is not `None`. -/
def shouldSave [DecidableEq χ] (c : CheckpointState χ) (value : χ) (every : ℕ) : Bool :=
  if c.lastSavedValue = some value then false else c.processedCount % every == 0

/-- `mark_saved`. -/
def markSaved (c : CheckpointState χ) (value : χ) : CheckpointState χ :=
  { c with lastSavedValue := some value }

end CheckpointState

/-- The counters of a run. -/
structure Metrics : Type where
  recordsConsumed : ℕ := 0
  recordsWritten : ℕ := 0
  recordsDropped : ℕ := 0
  recordsErrored : ℕ := 0
  dlqFailureCount : ℕ := 0
  checkpointSaveCount : ℕ := 0
  checkpointFailureCount : ℕ := 0
  checkpointSaveMaxBatchSize : ℕ := 0
  writerFlushCount : ℕ := 0
  writerFlushMaxBatchSize : ℕ := 0

/-- The hot-path counters that are not yet committed to the metrics. -/
structure HotPathMetrics : Type where
  consumed : ℕ := 0
  written : ℕ := 0
  ticks : ℕ := 0

/-- What an `asyncio.Task` has come to. -/
inductive TaskStatus : Type where
  | running
  | returned
  | raised (e : Exc)
  deriving DecidableEq, Repr

/-- The task of the pending-write owner with the three events it shares with the lane. -/
structure PendingWriteOwner : Type where
  task : TaskStatus
  notify : Bool
  stop : Bool
  flushed : Bool

/-- A success hook registered for a record, with its optional discard callback. -/
structure Registration : Type where
  hook : Hook
  onDiscard : Option Hook

/-- Mutable execution state shared by the runtime helpers.  `lane` holds the mutable objects of the
lane (a deque, a buffer, the dictionary of pending batches). -/
structure RunState (ℓ α χ : Type) : Type where
  checkpointState : CheckpointState χ
  pendingWrites : List (PendingWrite α χ)
  processedCount : ℕ
  pendingWriteBatchSize : ℕ
  pendingWriteOwner : Option PendingWriteOwner
  pendingWriteError : Option Exc
  pendingWriteUsesOwner : Option Bool
  successHooks : α → List Registration
  metrics : Metrics
  hot : HotPathMetrics
  lane : ℓ

/-- The state at the start of a run. -/
def RunState.initial {ℓ α χ : Type} (lane : ℓ) (lastSavedValue : Option χ) : RunState ℓ α χ where
  checkpointState := ⟨0, lastSavedValue⟩
  pendingWrites := []
  processedCount := 0
  pendingWriteBatchSize := 1
  pendingWriteOwner := none
  pendingWriteError := none
  pendingWriteUsesOwner := none
  successHooks := fun _ => []
  metrics := {}
  hot := {}
  lane := lane

/-! ## Calls -/

/-- The result of a buffered-stage future: a plain value or `None`, or a processed-record envelope
for the same source record. -/
inductive BufferedResult (α : Type) : Type where
  | value (v : Option α)
  | processed (result : Option α) (failure : Option (MiddlewareFailure α))

/-- The awaited operations by which the runtime reaches the code under it; each of them can
raise. -/
inductive Await (α χ : Type) : Type where
  /-- Fetch the next element of the source stream. -/
  | sourceNext
  /-- `source.current_checkpoint()`. -/
  | currentCheckpoint
  /-- `RunFence.validate()`. -/
  | validateFence
  | write (record : α)
  | writeBatch (records : List α)
  | writeArrowBatch (rows : List α)
  | dlqWrite (record : DLQRecord α χ)
  | saveCheckpoint (key : String) (checkpoint : Checkpoint χ)
  | successHook (hook : Hook)
  | discardHook (hook : Hook)
  /-- The predicate of the filter at the index. -/
  | predicate (index : ℕ) (record : α)
  | onError (index : ℕ) (record : α) (exc : Exc)
  /-- `process_batch` of the batch middleware at the index; in a process-pool middleware this is the
  worker function. -/
  | processBatch (index : ℕ) (records : List (Option α))
  | processArrowBatch (index : ℕ) (rows : List α)
  /-- The pending-write owner waits to be notified, possibly with a timeout; the answer says whether
  it timed out. -/
  | notifyWait (timeout : Bool)
  /-- The lane waits for a flush of the pending-write owner. -/
  | flushedWait
  /-- The lane waits for the task of the pending-write owner. -/
  | joinOwner
  /-- `submit` of the buffered middleware at the index. -/
  | submit (index : ℕ) (record : α)
  | awaitFuture (future : Future)
  /-- Wait for cancelled futures, ignoring how they end. -/
  | gather (futures : List Future)
  | drainBuffered
  /-- Create the task that runs `process_batch` of the pipelined stage. -/
  | submitBatch (index : ℕ) (records : List (Option α))
  | awaitBatch (future : Future)
  /-- Create the task that runs `process_arrow_batch` of the pipelined stage. -/
  | submitArrowBatch (index : ℕ) (rows : List α)
  | awaitArrowBatch (future : Future)
  | drainPipelinedBatches
  | abortInFlightBatches
  /-- `asyncio.sleep(0)`. -/
  | sleep

/-- What an awaited operation returns. -/
@[reducible] def Await.Value {α χ : Type} : Await α χ → Type
  | .currentCheckpoint => Option χ
  | .validateFence => Bool
  | .write _ => WriteResult
  | .writeBatch _ => List WriteResult
  | .predicate _ _ => Bool
  | .processBatch _ _ => List (Option α)
  | .processArrowBatch _ _ => List α
  | .notifyWait _ => Bool
  | .submit _ _ => Future
  | .awaitFuture _ => BufferedResult α
  | .submitBatch _ _ => Future
  | .awaitBatch _ => List (Option α)
  | .submitArrowBatch _ _ => Future
  | .awaitArrowBatch _ => List α
  | _ => Unit

/-- All operations by which the runtime reaches the code under it. -/
inductive Call (α χ : Type) : Type where
  | await (a : Await α χ)
  /-- `process` of the middleware at the index, which may register success hooks. -/
  | process (index : ℕ) (record : α)
  /-- Create the task that takes a record through several buffered stages. -/
  | createStagesTask (record : α) (value : α)
  | futureDone (future : Future)
  | cancelFuture (future : Future)
  /-- `observe` of the adaptive backpressure controller. -/
  | observeLimit (pendingCount : ℕ)

/-- The answers of a call. -/
@[reducible] def Call.Ret {α χ : Type} : Call α χ → Type
  | .await a => Except Exc a.Value
  | .process _ _ => Except Exc (Option α) × List (α × Registration)
  | .createStagesTask _ _ => Future
  | .futureDone _ => Bool
  | .cancelFuture _ => Unit
  | .observeLimit _ => ℕ

/-! ## Marks -/

/-- How a record was handled. -/
inductive Handling : Type where
  /-- The writer wrote it. -/
  | written
  /-- A middleware dropped it, or the writer had no route for it. -/
  | dropped
  /-- Its failure was captured in the dead-letter queue. -/
  | routed
  /-- Its failure is skipped under the active policy. -/
  | skipped
  deriving DecidableEq, Repr

/-- Points of a run that statements refer to; they have no effect. -/
inductive Mark (α χ : Type) : Type where
  /-- The record with the checkpoint has reached a handled outcome. -/
  | settled (checkpoint : Option χ) (how : Handling)
  /-- A dropped or failed record is about to save its checkpoint, if a save is due. -/
  | dropping (due : Bool)
  /-- The linear lane has taken the record from the source. -/
  | consumed (record : SourceRecord α χ)
  /-- The linear lane passes the processed record on to the writer side. -/
  | accepted (record : SourceRecord α χ)
  /-- The buffered lane hands the record with its value or its failure to the delivery engine. -/
  | dispatched (record : SourceRecord α χ) (result : Option α) (failure : Option (MiddlewareFailure α))
  /-- A middleware before the first buffered stage dropped or failed a record while so many records
  were pending in the stage. -/
  | prefixRejected (pending : ℕ)
  /-- Committing records raised while others were pending in the stage, each with its future unless
  its submission failed; some records may also have been queued for the writer. -/
  | commitRaised (exc : Exc) (streaming : Bool) (pending : List (Option Future)) (queued : Bool)
  /-- The batch lane finalizes the batch. -/
  | finalizing (batch : SourceBatch α χ)
  /-- The pipelined batch lane finalizes a batch that never entered the pipelined stage while so
  many batches were pending in it. -/
  | bypassed (pending : ℕ)
  /-- Finalizing a batch raised. -/
  | finalizeRaised (exc : Exc) (streaming : Bool) (pending : ℕ)
  /-- A failure of the stage was not captured in the dead-letter queue; the attempt raised or was
  only logged. -/
  | uncaptured (stage : String) (raised : Bool)

/-! ## Runs -/

/-- The programs of the delivery engine and the lanes. -/
abbrev Delivery (ℓ α χ : Type) : Type → Type :=
  Program (Call α χ) Call.Ret (Mark α χ) (RunState ℓ α χ) Exc

/-- The events of a run. -/
abbrev RunTrace (α χ : Type) : Type := Trace (Call α χ) Call.Ret (Mark α χ)

/-- A run state with the events that led to it. -/
abbrev RunWorld (ℓ α χ : Type) : Type := World (Call α χ) Call.Ret (Mark α χ) (RunState ℓ α χ)

/-- The behaviour of the code under the runtime. -/
abbrev Environment (α χ : Type) : Type := Handler (Call α χ) Call.Ret (Mark α χ)

/-- Run a program of the runtime from the start of a run. -/
def runFrom {ℓ α χ β : Type} (h : Environment α χ) (lane : ℓ) (lastSaved : Option χ)
    (p : Delivery ℓ α χ β) : Outcome Exc β × RunWorld ℓ α χ :=
  p.run h ⟨RunState.initial lane lastSaved, []⟩

/-- What a function reads off the marks of a run, in their order. -/
def marked {α χ β : Type} (f : Mark α χ → Option β) (t : RunTrace α χ) : List β :=
  t.filterMap fun
    | .mark m => f m
    | .called _ _ => none

section Marked

variable {α χ β : Type} (f : Mark α χ → Option β)

@[simp] theorem marked_nil : marked f [] = [] := rfl

@[simp] theorem marked_append (t t' : RunTrace α χ) :
    marked f (t ++ t') = marked f t ++ marked f t' := List.filterMap_append

@[simp] theorem marked_called (o : Call α χ) (r : o.Ret) (t : RunTrace α χ) :
    marked f (.called o r :: t) = marked f t := rfl

@[simp] theorem marked_mark (m : Mark α χ) (t : RunTrace α χ) :
    marked f (.mark m :: t) = (f m).toList ++ marked f t := by
  cases hm : f m with
  | none => exact List.filterMap_cons_none hm
  | some b => exact List.filterMap_cons_some hm

theorem mem_marked {b : β} {t : RunTrace α χ} :
    b ∈ marked f t ↔ ∃ m, Event.mark m ∈ t ∧ f m = some b := by
  simp only [marked, List.mem_filterMap]
  constructor
  · rintro ⟨e, he, hb⟩
    cases e with
    | mark m => exact ⟨m, he, hb⟩
    | called o r => cases hb
  · rintro ⟨m, hm, hb⟩
    exact ⟨_, hm, hb⟩

end Marked

/-- What an awaited operation returns when nothing goes wrong. -/
def Await.success {α χ : Type} : (a : Await α χ) → a.Value
  | .sourceNext => ()
  | .currentCheckpoint => none
  | .validateFence => true
  | .write _ => ⟨true, []⟩
  | .writeBatch records => records.map fun _ => ⟨true, []⟩
  | .writeArrowBatch _ => ()
  | .dlqWrite _ => ()
  | .saveCheckpoint _ _ => ()
  | .successHook _ => ()
  | .discardHook _ => ()
  | .predicate _ _ => true
  | .onError _ _ _ => ()
  | .processBatch _ records => records
  | .processArrowBatch _ rows => rows
  | .notifyWait _ => false
  | .flushedWait => ()
  | .joinOwner => ()
  | .submit index _ => index
  | .awaitFuture _ => .value none
  | .gather _ => ()
  | .drainBuffered => ()
  | .submitBatch index _ => index
  | .awaitBatch _ => []
  | .submitArrowBatch index _ => index
  | .awaitArrowBatch _ => []
  | .drainPipelinedBatches => ()
  | .abortInFlightBatches => ()
  | .sleep => ()

/-- The environment in which nothing goes wrong; examples and failing inputs deviate from it. -/
def undisturbed {α χ : Type} : Environment α χ
  | _, .await a => .ok a.success
  | _, .process _ record => (.ok (some record), [])
  | _, .createStagesTask _ _ => 0
  | _, .futureDone _ => true
  | _, .cancelFuture _ => ()
  | _, .observeLimit pendingCount => pendingCount

end AgoraEtl
