import AgoraEtl.Lanes.Coordinator

/-!
# Batch lane execution strategy

The batch lane runs whole batches through the chain and delivers them: Arrow batches straight to the
writer or through an Arrow chain, list batches through `process_batch`.  When the chain has a stage
that processes batches concurrently, the lane keeps a dictionary of pending batches by sequence
number and commits them from `nextCommit` on.
-/

namespace AgoraEtl

open Effect Program

variable {ℓ α χ : Type} [DecidableEq α] [DecidableEq χ]

namespace ExecutionCoordinator

variable (c : ExecutionCoordinator α χ)

/-! ## Finalizing batches -/

/-- `_finalize_list_batch_result`. -/
def finalizeListBatchResult (batch : SourceBatch α χ) (result : BatchProcessResult α) :
    Delivery ℓ α χ Unit := do
  note (.finalizing batch)
  c.delivery.writeBatchResult result batch.rows batch.checkpoint
  hotFlush

/-- The write of an Arrow batch, natively or as rows; every reported failure becomes an
exception. -/
def writeArrowRows (rows : List α) : Delivery ℓ α χ Unit := do
  if c.arrowNativeSink then c.delivery.writeArrowBatch rows
  else do
    let results ← c.delivery.writeBatch rows
    match (results.flatMap WriteResult.errors).head? with
    | some firstError => raise firstError
    | none =>
      if results.all WriteResult.written then pure ()
      else raise (.runtimeError "arrow batch fallback write did not write all records")
  incWritten rows.length
  consume 0

/-- The handler for a failed write of an Arrow batch: the failure counts as routed when no
dead-letter sink is configured. -/
def arrowWriteFailed (exc : Exc) (checkpoint : Option χ) (rawRows rows : List α) :
    Delivery ℓ α χ Unit := do
  countErrored rows.length
  let routed ←
    if c.delivery.dlqSink then do
      let routed ← c.delivery.routeAll "sink_write" exc checkpoint none
        ((rawRows.zip rows).map fun p => (p.1, some p.2))
      if rawRows.length ≠ rows.length then
        raise (DeliveryEngine.zipStrictError rawRows.length rows.length)
      else pure routed
    else pure true
  if routed || c.delivery.sinkFailurePolicy = .logAndContinue then pure ()
  else raiseRecordDelivery exc

/-- Write the rows of an Arrow batch and save its checkpoint. -/
def deliverArrowRows (batch : SourceBatch α χ) (rows : List α) : Delivery ℓ α χ Unit := do
  catchException (c.writeArrowRows rows) fun exc =>
    c.arrowWriteFailed exc batch.checkpoint batch.rows rows
  c.delivery.saveBatchCheckpoint batch.checkpoint batch.rows.length
  hotFlush

/-- `_write_passthrough_arrow_batch`. -/
def writePassthroughArrowBatch (batch : SourceBatch α χ) : Delivery ℓ α χ Unit := do
  note (.finalizing batch)
  c.deliverArrowRows batch batch.rows

/-- The branch of `_finalize_arrow_batch_result` for a batch whose middleware failed. -/
def arrowMiddlewareFailed (batch : SourceBatch α χ) (failure : BatchFailure) :
    Delivery ℓ α χ Unit := do
  countErrored batch.rows.length
  let routed ←
    if c.delivery.dlqSink then
      c.delivery.routeAll "batch_middleware" failure.exception batch.checkpoint
        (some failure.middleware) (batch.rows.map fun r => (r, none))
    else pure true
  if routed || c.delivery.sinkFailurePolicy = .logAndContinue then
    c.delivery.saveBatchCheckpoint batch.checkpoint batch.rows.length
  else raiseRecordDelivery failure.exception
  hotFlush

/-- `_finalize_arrow_batch_result`. -/
def finalizeArrowBatchResult (batch : SourceBatch α χ)
    (result : MiddlewareChain.ArrowProcessResult α) : Delivery ℓ α χ Unit := do
  note (.finalizing batch)
  match result.failure with
  | some failure => c.arrowMiddlewareFailed batch failure
  | none =>
    if result.rows.isEmpty then do
      c.delivery.saveBatchCheckpoint batch.checkpoint batch.rows.length
      hotFlush
    else c.deliverArrowRows batch result.rows

/-! ## Sequential batches -/

/-- The body of the sequential loop for an Arrow batch. -/
def runArrowBatch (batch : SourceBatch α χ) : Delivery ℓ α χ Unit := do
  let _ ← incConsumed batch.rows.length
  if c.chain.isEmpty then c.writePassthroughArrowBatch batch
  else do
    let result ← c.chain.processArrowBatch batch.rows
    c.finalizeArrowBatchResult batch result

/-- The body of the sequential loop for a list batch. -/
def runListBatch (batch : SourceBatch α χ) : Delivery ℓ α χ Unit := do
  let _ ← incConsumed batch.rows.length
  let result ← c.chain.processBatch batch.rows
  c.finalizeListBatchResult batch result

/-- The sequential part of `BatchLaneStrategy.run`. -/
def runSequentialBatches (batches : List (SourceBatch α χ)) : Delivery ℓ α χ Unit := do
  forEach (fun batch => if c.arrowChain then c.runArrowBatch batch else c.runListBatch batch)
    batches
  hotFlush

end ExecutionCoordinator

/-! ## Pipelined batches -/

/-- A task created by `submit_batch`; it knows how many records it was given. -/
structure BatchTask : Type where
  future : Future
  expected : ℕ
  deriving DecidableEq, Repr

/-- The dictionary of pending batches, in insertion order, with the two sequence numbers. -/
structure PipelineState (α χ : Type) : Type where
  pendingBatches : List (ℕ × BatchTask × SourceBatch α χ)
  nextSequence : ℕ
  nextCommit : ℕ

namespace PipelineState

/-- No batch is pending. -/
def empty {α χ : Type} : PipelineState α χ := ⟨[], 0, 0⟩

/-- `pending_batches.pop(sequence)`. -/
def pop {α χ : Type} (sequence : ℕ) (p : PipelineState α χ) : PipelineState α χ :=
  { p with pendingBatches := p.pendingBatches.filter fun entry => entry.1 ≠ sequence }

/-- `pending_batches[next_sequence] = …; next_sequence += 1`. -/
def push {α χ : Type} (task : BatchTask) (batch : SourceBatch α χ) (p : PipelineState α χ) :
    PipelineState α χ :=
  { p with
    pendingBatches := p.pendingBatches ++ [(p.nextSequence, task, batch)]
    nextSequence := p.nextSequence + 1 }

end PipelineState

/-- The programs of the pipelined batch lane. -/
abbrev PipelineDelivery (α χ : Type) : Type → Type := Delivery (PipelineState α χ) α χ

/-- What the list and the Arrow variant of the pipelined lane do differently; `ρ` is what the chain
makes of a batch. -/
structure PipelinedVariant (α χ ρ : Type) : Type where
  /-- Run the prefix of the chain and submit the batch; the result of a batch that does not enter the
  pipelined stage is returned at once. -/
  enter : SourceBatch α χ → PipelineDelivery α χ (ρ ⊕ BatchTask)
  /-- Await the stage and run the suffix of the chain. -/
  collect : BatchTask → PipelineDelivery α χ ρ
  finalize : SourceBatch α χ → ρ → PipelineDelivery α χ Unit

/-- The stage that processes batches concurrently. -/
structure PipelinedStage : Type where
  index : ℕ
  middleware : Middleware
  deriving DecidableEq, Repr

namespace MiddlewareChain

/-- The middleware can submit whole batches concurrently. -/
def isPipelined (mw : Middleware) : Bool :=
  (decide (mw.kind = .processBatch) || decide (mw.kind = .arrowProcessBatch)) &&
    decide (1 < mw.batchInFlightLimit)

/-- `first_pipelined_batch_stage`. -/
def firstPipelinedBatchStage (chain : MiddlewareChain) : Option PipelinedStage :=
  (chain.zipIdx.find? fun s => isPipelined s.1).map fun s => ⟨s.2, s.1⟩

end MiddlewareChain

namespace ExecutionCoordinator

variable (c : ExecutionCoordinator α χ)

/-- How many batches may be pending in the stage. -/
def stageLimit (stage : PipelinedStage) : ℕ :=
  max 1 (match c.maxBufferSize with
    | none => max 1 stage.middleware.batchInFlightLimit
    | some size => min (max 1 stage.middleware.batchInFlightLimit) size)

/-- Run the prefix of a list batch and submit it. -/
def enterListBatch (stage : PipelinedStage) (batch : SourceBatch α χ) :
    PipelineDelivery α χ (BatchProcessResult α ⊕ BatchTask) := do
  let prefixResult ← c.chain.processBatchRange 0 stage.index (batch.rows.map some)
  if prefixResult.failure.isSome then pure (.inl prefixResult)
  else do
    let future ← invoke (.submitBatch stage.index prefixResult.results)
    pure (.inr ⟨future, prefixResult.results.length⟩)

/-- Await the task of a list batch and run the suffix of the chain. -/
def awaitListBatch (stage : PipelinedStage) (task : BatchTask) :
    PipelineDelivery α χ (BatchProcessResult α) :=
  catchException
    (do
      let workerResult ← invoke (.awaitBatch task.future)
      let stageResult ← ofExcept (stage.middleware.checkWorkerResult task.expected workerResult)
      c.chain.processBatchRange (stage.index + 1) c.chain.length stageResult)
    fun exc => pure
      { results := [], passthrough := false, failure := some ⟨exc, stage.middleware.name⟩ }

/-- The variant of `_run_pipelined_list_batches`. -/
def listVariant (stage : PipelinedStage) : PipelinedVariant α χ (BatchProcessResult α) where
  enter := c.enterListBatch stage
  collect := c.awaitListBatch stage
  finalize := c.finalizeListBatchResult

/-- Run the prefix of an Arrow batch and submit it, unless the prefix leaves no rows. -/
def enterArrowBatch (stage : PipelinedStage) (batch : SourceBatch α χ) :
    PipelineDelivery α χ (MiddlewareChain.ArrowProcessResult α ⊕ BatchTask) := do
  let prefixResult ← c.chain.processArrowBatchRange 0 stage.index batch.rows
  if prefixResult.failure.isSome || prefixResult.rows.isEmpty then pure (.inl prefixResult)
  else do
    let future ← invoke (.submitArrowBatch stage.index prefixResult.rows)
    pure (.inr ⟨future, prefixResult.rows.length⟩)

/-- Await the task of an Arrow batch and run the suffix of the chain. -/
def awaitArrowBatch (stage : PipelinedStage) (task : BatchTask) :
    PipelineDelivery α χ (MiddlewareChain.ArrowProcessResult α) :=
  catchException
    (do
      let stageResult ← invoke (.awaitArrowBatch task.future)
      c.chain.processArrowBatchRange (stage.index + 1) c.chain.length stageResult)
    fun exc => pure ⟨[], some ⟨exc, stage.middleware.name⟩⟩

/-- The variant of `_run_pipelined_arrow_batches`. -/
def arrowVariant (stage : PipelinedStage) :
    PipelinedVariant α χ (MiddlewareChain.ArrowProcessResult α) where
  enter := c.enterArrowBatch stage
  collect := c.awaitArrowBatch stage
  finalize := c.finalizeArrowBatchResult

end ExecutionCoordinator

namespace PipelinedVariant

variable {ρ : Type} (v : PipelinedVariant α χ ρ)

omit [DecidableEq α] [DecidableEq χ]

/-- Finalize a batch that does not enter the pipelined stage. -/
def finalizeBypassed (batch : SourceBatch α χ) (result : ρ) : PipelineDelivery α χ Unit := do
  let s ← read
  note (.bypassed s.lane.pendingBatches.length)
  v.finalize batch result

/-- Submit a batch, or finalize it if it does not enter the pipelined stage. -/
def submit (batch : SourceBatch α χ) : PipelineDelivery α χ (Option BatchTask) := do
  let entered ← v.enter batch
  match entered with
  | .inl result => do
    v.finalizeBypassed batch result
    pure none
  | .inr task => pure (some task)

/-- `_resolve_pipelined_*_batch`. -/
def resolve (task : BatchTask) (batch : SourceBatch α χ) : PipelineDelivery α χ Unit := do
  let result ← v.collect task
  v.finalize batch result

/-- Update the objects of the pipelined lane. -/
def modifyPipeline (f : PipelineState α χ → PipelineState α χ) : PipelineDelivery α χ Unit :=
  modify fun s => { s with lane := f s.lane }

/-- Resolve a batch that was taken out of the dictionary, noting an exception. -/
def resolveTaken (streaming : Bool) (task : BatchTask) (batch : SourceBatch α χ) :
    PipelineDelivery α χ Unit := do
  let resolved ← attempt (v.resolve task batch)
  match resolved with
  | .ok () => pure ()
  | .error exc => do
    let s ← read
    note (.finalizeRaised exc streaming s.lane.pendingBatches.length)
    raise exc

/-- Take a batch out of the dictionary. -/
def popBatch (sequence : ℕ) : PipelineDelivery α χ Unit :=
  modifyPipeline (PipelineState.pop sequence)

/-- `pending_batches.get(sequence)`. -/
def getBatch (sequence : ℕ) : PipelineDelivery α χ (Option (BatchTask × SourceBatch α χ)) := do
  let s ← read
  pure (s.lane.pendingBatches.lookup sequence)

/-- One round of the loop of `_drain_ready_pipelined_*_batches`. -/
def drainReadyRound (streaming : Bool) (nextCommit : ℕ) : PipelineDelivery α χ (ℕ ⊕ ℕ) := do
  let entry ← getBatch nextCommit
  match entry with
  | none => pure (.inr nextCommit)
  | some (task, batch) => do
    let done ← perform (Call.futureDone task.future)
    if done then do
      popBatch nextCommit
      v.resolveTaken streaming task batch
      pure (.inl (nextCommit + 1))
    else pure (.inr nextCommit)

/-- `_drain_ready_pipelined_*_batches`. -/
def drainReady (fuel : ℕ) (streaming : Bool) (nextCommit : ℕ) : PipelineDelivery α χ ℕ :=
  iterate (v.drainReadyRound streaming) fuel nextCommit

/-- `_commit_next_pipelined_*_batch`. -/
def commitNext (streaming : Bool) (nextCommit : ℕ) : PipelineDelivery α χ ℕ := do
  let entry ← getBatch nextCommit
  match entry with
  | none => pure nextCommit
  | some (task, batch) => do
    popBatch nextCommit
    v.resolveTaken streaming task batch
    pure (nextCommit + 1)

/-- `next_commit = await …`: the variable keeps its value when the helper raises. -/
def advanceCommit (helper : ℕ → PipelineDelivery α χ ℕ) : PipelineDelivery α χ Unit := do
  let s ← read
  let nextCommit ← helper s.lane.nextCommit
  modifyPipeline fun p => { p with nextCommit := nextCommit }

/-- One round of the loop that keeps the number of pending batches under the limit. -/
def limitRound (fuel limit : ℕ) : Unit → PipelineDelivery α χ (Unit ⊕ Unit)
  | () => do
    let s ← read
    if s.lane.pendingBatches.length < limit then pure (.inr ())
    else do
      advanceCommit (v.drainReady fuel true)
      let s ← read
      if s.lane.pendingBatches.length < limit then pure (.inr ())
      else do
        advanceCommit (v.commitNext true)
        pure (.inl ())

/-- The body of the streaming loop. -/
def streamBatch (fuel limit : ℕ) (batch : SourceBatch α χ) : PipelineDelivery α χ Unit := do
  let _ ← incConsumed batch.rows.length
  let submitted ← v.submit batch
  match submitted with
  | none => pure ()
  | some task => modifyPipeline (PipelineState.push task batch)
  iterate (v.limitRound fuel limit) fuel ()

/-- One round of the loop that drains the pending batches after the stream has ended. -/
def drainRound (fuel : ℕ) : Unit → PipelineDelivery α χ (Unit ⊕ Unit)
  | () => do
    let s ← read
    if s.lane.pendingBatches.isEmpty then pure (.inr ())
    else do
      invoke .drainPipelinedBatches
      invoke .sleep
      advanceCommit (v.drainReady fuel false)
      let s ← read
      if s.lane.pendingBatches.isEmpty then pure (.inr ())
      else do
        advanceCommit (v.commitNext false)
        pure (.inl ())

/-- Cancel the futures that are not done. -/
def cancelFutures : List Future → Delivery ℓ α χ Unit
  | [] => pure ()
  | future :: futures => do
    let done ← perform (Call.futureDone future)
    if done then pure () else perform (Call.cancelFuture future)
    cancelFutures futures

/-- `_cancel_pending_batch_tasks`. -/
def cancelPendingBatchTasks : PipelineDelivery α χ Unit := do
  let s ← read
  let futures := s.lane.pendingBatches.map fun entry => entry.2.1.future
  modifyPipeline fun p => { p with pendingBatches := [] }
  invoke .abortInFlightBatches
  cancelFutures futures
  if futures.isEmpty then pure () else invoke (.gather futures)

/-- Drain the pending batches; any exception cancels the rest. -/
def drainPending (fuel : ℕ) : PipelineDelivery α χ Unit := do
  let drained ← attempt (iterate (v.drainRound fuel) fuel ())
  match drained with
  | .ok () => pure ()
  | .error exc => do
    cancelPendingBatchTasks
    raise exc

/-- `_run_pipelined_*_batches`. -/
def runPipelined (fuel limit : ℕ) (batches : List (SourceBatch α χ)) :
    PipelineDelivery α χ Unit := do
  let streamed ← attempt (forEach (v.streamBatch fuel limit) batches)
  match streamed with
  | .error exc =>
    if mustAbortPendingWork exc then do
      cancelPendingBatchTasks
      raise exc
    else do
      v.drainPending fuel
      raise exc
  | .ok () => v.drainPending fuel

end PipelinedVariant

namespace ExecutionCoordinator

variable (c : ExecutionCoordinator α χ)

/-- `BatchLaneStrategy.run` for a chain with a pipelined stage. -/
def runPipelinedBatches (fuel : ℕ) (stage : PipelinedStage) (batches : List (SourceBatch α χ)) :
    PipelineDelivery α χ Unit := do
  if stage.middleware.kind = .arrowProcessBatch then
    if c.arrowChain = false then
      raise (.runtimeError s!"{stage.middleware.name} requires an all-Arrow batch chain.")
    else (c.arrowVariant stage).runPipelined fuel (c.stageLimit stage) batches
  else (c.listVariant stage).runPipelined fuel (c.stageLimit stage) batches
  hotFlush

/-- `BatchLaneStrategy.run`. -/
def runBatchLane (fuel : ℕ) (batches : List (SourceBatch α χ)) : PipelineDelivery α χ Unit :=
  match c.chain.firstPipelinedBatchStage with
  | some stage => c.runPipelinedBatches fuel stage batches
  | none => c.runSequentialBatches batches

end ExecutionCoordinator

end AgoraEtl
