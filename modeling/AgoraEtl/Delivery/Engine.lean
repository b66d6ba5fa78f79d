import AgoraEtl.Delivery.Results

/-!
# The delivery engine

`dropRecord`, `writeProcessedRecord` and the queue of pending writes.  A batched writer collects
processed records in `pendingWrites`; they are flushed either by the lane itself or, when a flush
interval is configured, by the pending-write owner, a task that runs beside the lane and shares the
run state with it.
-/

namespace AgoraEtl

open Effect Program

variable {ℓ α χ : Type}

namespace DeliveryEngine

variable (d : DeliveryEngine α χ) [DecidableEq α] [DecidableEq χ]

/-! ## Dropped and failed records -/

/-- The next record counted would make a save of this checkpoint due. -/
def checkpointDue (s : RunState ℓ α χ) : Option χ → Bool
  | none => false
  | some v => d.checkpointStore &&
      (s.checkpointState.incrementBy 1).shouldSave v d.checkpointEvery

/-- The end of `drop_record`: the checkpoint of the record is saved at once. -/
def finishDrop (checkpoint : Option χ) (onSuccess : List Hook) : Delivery ℓ α χ Unit := do
  let s ← read
  note (.dropping (d.checkpointDue s checkpoint))
  d.saveCheckpoint checkpoint
  runHooks onSuccess

/-- `drop_record`. -/
def dropRecord (checkpoint : Option χ) (failure : Option (MiddlewareFailure α))
    (onSuccess : List Hook) (hookRecord : Option α) : Delivery ℓ α χ Unit := do
  let onSuccess ← match hookRecord, failure with
    | some record, _ => successHookFor record none onSuccess
    | none, some f => successHookFor f.record none onSuccess
    | none, none => pure onSuccess
  match failure with
  | some f => do
    let routed ← d.writeToDlq f.stage f.exception f.record none checkpoint (some f.middleware)
    countErrored 1
    if d.dlqSink && !routed then do
      discardSuccessHooks [f.record]
      if d.checkpointStore && checkpoint.isSome then raiseRecordDelivery f.exception else pure ()
    else do
      note (.settled checkpoint (failureHandling routed))
      d.finishDrop checkpoint onSuccess
  | none => do
    countDropped 1
    note (.settled checkpoint .dropped)
    d.finishDrop checkpoint onSuccess

/-! ## Unbatched writes -/

/-- The handler of `write_processed_record` for an exception of the writer. -/
def writeFailed (exc : Exc) (result rawRecord : α) (checkpoint : Option χ)
    (onSuccess : List Hook) : Delivery ℓ α χ Unit := do
  let routed ← d.writeToDlq "sink_write" exc rawRecord (some result) checkpoint none
  countErrored 1
  if routed || d.sinkFailurePolicy = .logAndContinue then do
    note (.settled checkpoint (failureHandling routed))
    d.saveCheckpoint checkpoint
    if routed then do
      let hooks ← successHookFor rawRecord (some result) onSuccess
      runHooks hooks
    else discardSuccessHooks [rawRecord, result]
  else do
    discardSuccessHooks [rawRecord, result]
    raiseRecordDelivery exc

/-- `_resolve_write_result`: the hooks of the record are collected first. -/
def resolveRecord (writeResult : WriteResult) (rawRecord processedRecord : α)
    (checkpoint : Option χ) (onSuccess : List Hook) : Delivery ℓ α χ (CommitOutcome χ) := do
  let onSuccess ← successHookFor rawRecord (some processedRecord) onSuccess
  d.resolveWriteResult writeResult rawRecord processedRecord checkpoint onSuccess

/-- `write_processed_record`. -/
def writeProcessedRecord (result : Option α) (rawRecord : α) (checkpoint : Option χ)
    (failure : Option (MiddlewareFailure α)) (onSuccess : List Hook) : Delivery ℓ α χ Unit :=
  match result with
  | none => d.dropRecord checkpoint failure onSuccess (some rawRecord)
  | some result => do
    let written ← catchSinkException
      (do
        let writeResult ← d.writeOne result
        pure (some writeResult))
      fun exc => do
        d.writeFailed exc result rawRecord checkpoint onSuccess
        pure none
    match written with
    | none => pure ()
    | some writeResult => do
      let outcome ← d.resolveRecord writeResult rawRecord result checkpoint onSuccess
      d.commitOutcome outcome

/-! ## Flushing pending writes -/

/-- All records of the batch were written. -/
def noteWritten : List (PendingWrite α χ) → Delivery ℓ α χ Unit
  | [] => pure ()
  | item :: items => do
    note (.settled item.checkpoint .written)
    noteWritten items

/-- The loop of `_commit_pending_write_success_batch`. -/
def commitSuccessFrom : PendingCommit χ → List (PendingWrite α χ) → Delivery ℓ α χ Unit
  | pending, [] => d.finishCommit pending
  | pending, item :: items => do
    let pending ← d.preparePending pending item.checkpoint item.onSuccess
    commitSuccessFrom pending items

/-- `_commit_pending_write_success_batch`. -/
def commitPendingWriteSuccessBatch (batch : List (PendingWrite α χ)) : Delivery ℓ α χ Unit := do
  countWritten batch.length
  noteWritten batch
  d.commitSuccessFrom .empty batch

/-- Resolve the results of a batch write one by one. -/
def resolveRecords : List (PendingWrite α χ × WriteResult) →
    Delivery ℓ α χ (List (CommitOutcome χ))
  | [] => pure []
  | (item, wr) :: items => do
    let outcome ← d.resolveRecord wr item.raw item.processed item.checkpoint item.onSuccess
    let outcomes ← resolveRecords items
    pure (outcome :: outcomes)

/-- Write a batch through the transport; a failed write is fanned out over its records, and the
result is then `none`. -/
def writeItems (batch : List (PendingWrite α χ)) : Delivery ℓ α χ (Option (List WriteResult)) :=
  catchSinkException
    (do
      let writeResults ← d.writeBatch (batch.map PendingWrite.processed)
      pure (some writeResults))
    fun exc => do
      d.flushBatchOutcomes exc batch
      pure none

/-- What a flush does with the batch it has taken. -/
def flushBatch (batch : List (PendingWrite α χ)) : Delivery ℓ α χ Unit := do
  let written ← d.writeItems batch
  match written with
  | none => pure ()
  | some writeResults => do
    validateWriteResultCount "" batch.length writeResults.length
    if writeResults.all WriteResult.ok then d.commitPendingWriteSuccessBatch batch
    else do
      let outcomes ← d.resolveRecords (batch.zip writeResults)
      d.commitOutcomes outcomes

/-- `_flush_pending_writes_once`. -/
def flushPendingWritesOnce : Delivery ℓ α χ Unit := do
  let s ← read
  if s.pendingWrites.isEmpty then pure ()
  else do
    modify fun s => { s with pendingWrites := [] }
    d.flushBatch s.pendingWrites

/-! ## The pending-write owner -/

/-- Update the events of the pending-write owner. -/
def modifyOwner (f : PendingWriteOwner → PendingWriteOwner) : Delivery ℓ α χ Unit :=
  modify fun s => { s with pendingWriteOwner := s.pendingWriteOwner.map f }

/-- `uses_pending_write_owner`. -/
def usesPendingWriteOwner (writerBatchSize : ℕ) : Bool :=
  decide (1 < writerBatchSize) && d.batchFlushIntervalMs.any fun ms => decide (0 < ms)

/-- `ensure_pending_write_owner`: the task is created and begins when it is scheduled. -/
def ensurePendingWriteOwner (writerBatchSize : ℕ) : Delivery ℓ α χ Unit := do
  let s ← read
  if d.usesPendingWriteOwner writerBatchSize = false then pure ()
  else if s.pendingWriteOwner.isSome then pure ()
  else modify fun s => { s with
    pendingWriteBatchSize := writerBatchSize
    pendingWriteError := none
    pendingWriteOwner := some { task := .running, notify := false, stop := false, flushed := true } }

/-- One of the events of the pending-write owner is set. -/
def ownerEvent (event : PendingWriteOwner → Bool) (s : RunState ℓ α χ) : Bool :=
  s.pendingWriteOwner.any event

/-- `await flush_once(state); flushed.set()`. -/
def ownerFlush : Delivery ℓ α χ Unit := do
  d.flushPendingWritesOnce
  modifyOwner fun o => { o with flushed := true }

/-- One round of the loop of `run_pending_write_owner`. -/
def pendingWriteOwnerRound : Unit → Delivery ℓ α χ (Unit ⊕ Unit)
  | () => do
    let s ← read
    if ownerEvent PendingWriteOwner.stop s && s.pendingWrites.isEmpty then pure (.inr ())
    else if s.pendingWriteBatchSize ≤ s.pendingWrites.length then do
      d.ownerFlush
      pure (.inl ())
    else do
      let waited ← attempt (invoke (.notifyWait (!s.pendingWrites.isEmpty)))
      modifyOwner fun o => { o with notify := false }
      let timedOut ← ofExcept waited
      let s ← read
      if ownerEvent PendingWriteOwner.stop s && !s.pendingWrites.isEmpty then do
        d.ownerFlush
        pure (.inl ())
      else if timedOut && !s.pendingWrites.isEmpty then do
        d.ownerFlush
        pure (.inl ())
      else pure (.inl ())

/-- `run_pending_write_owner`; the last line is the bookkeeping of the task itself. -/
def runPendingWriteOwner (fuel : ℕ) : Delivery ℓ α χ Unit := do
  let ended ← attempt (iterate d.pendingWriteOwnerRound fuel ())
  match ended with
  | .ok () => modifyOwner fun o => { o with task := .returned }
  | .error .cancelled => modifyOwner fun o => { o with task := .raised .cancelled }
  | .error exc => modify fun s => { s with
      pendingWriteError := some exc
      pendingWriteOwner := s.pendingWriteOwner.map fun o =>
        { o with flushed := true, task := .raised exc } }

/-- `wait_for_pending_write_capacity`, one round. -/
def pendingWriteCapacityRound (writerBatchSize : ℕ) : Unit → Delivery ℓ α χ (Unit ⊕ Unit)
  | () => do
    let s ← read
    if writerBatchSize ≤ s.pendingWrites.length then
      match s.pendingWriteError with
      | some exc => raise exc
      | none => do
        invoke .flushedWait
        pure (.inl ())
    else pure (.inr ())

/-- `wait_for_pending_write_capacity`. -/
def waitForPendingWriteCapacity (fuel writerBatchSize : ℕ) : Delivery ℓ α χ Unit :=
  iterate (pendingWriteCapacityRound writerBatchSize) fuel ()

/-- `close_pending_write_owner`. -/
def closePendingWriteOwner : Delivery ℓ α χ Unit := do
  let s ← read
  if s.pendingWriteOwner.isNone then pure ()
  else do
    modifyOwner fun o => { o with stop := true, notify := true }
    let joined ← attempt (invoke .joinOwner)
    let s ← read
    modify fun s => { s with pendingWriteOwner := none, pendingWriteError := none }
    match s.pendingWriteError with
    | some exc => raise exc
    | none => ofExcept joined

/-! ## Queueing -/

/-- `flush_pending_writes`. -/
def flushPendingWrites : Delivery ℓ α χ Unit := do
  closePendingWriteOwner
  d.flushPendingWritesOnce

/-- `_pending_write_uses_owner`. -/
def pendingWriteUsesOwner (writerBatchSize : ℕ) : Delivery ℓ α χ Bool := do
  let s ← read
  match s.pendingWriteUsesOwner with
  | some uses => pure uses
  | none => do
    let uses := d.usesPendingWriteOwner writerBatchSize
    modify fun s => { s with pendingWriteUsesOwner := some uses }
    pure uses

/-- Append to the pending writes and return how many there are. -/
def appendPendingWrite (item : PendingWrite α χ) : Delivery ℓ α χ ℕ := do
  modify fun s => { s with pendingWrites := s.pendingWrites ++ [item] }
  let s ← read
  pure s.pendingWrites.length

/-- `queue_success_record`. -/
def queueSuccessRecord (fuel : ℕ) (result rawRecord : α) (checkpoint : Option χ)
    (writerBatchSize : ℕ) (onSuccess : List Hook) : Delivery ℓ α χ Unit := do
  let onSuccess ← successHookFor rawRecord (some result) onSuccess
  let usesOwner ← d.pendingWriteUsesOwner writerBatchSize
  if usesOwner then do
    d.ensurePendingWriteOwner writerBatchSize
    modifyOwner fun o => { o with flushed := false }
    let pendingCount ← appendPendingWrite ⟨result, rawRecord, checkpoint, onSuccess⟩
    modifyOwner fun o => { o with notify := true }
    if writerBatchSize ≤ pendingCount then
      waitForPendingWriteCapacity fuel writerBatchSize
    else pure ()
  else do
    let pendingCount ← appendPendingWrite ⟨result, rawRecord, checkpoint, onSuccess⟩
    if writerBatchSize ≤ pendingCount then d.flushPendingWrites else pure ()

/-- `queue_processed_record`. -/
def queueProcessedRecord (fuel : ℕ) (result : Option α) (rawRecord : α) (checkpoint : Option χ)
    (writerBatchSize : ℕ) (failure : Option (MiddlewareFailure α)) (onSuccess : List Hook) :
    Delivery ℓ α χ Unit :=
  match result with
  | none => d.dropRecord checkpoint failure onSuccess (some rawRecord)
  | some result => d.queueSuccessRecord fuel result rawRecord checkpoint writerBatchSize onSuccess

/-- `dispatch_processed_result`. -/
def dispatchProcessedResult (fuel : ℕ) (result : Option α) (rawRecord : α) (checkpoint : Option χ)
    (writerBatchSize : ℕ) (failure : Option (MiddlewareFailure α)) (onSuccess : List Hook) :
    Delivery ℓ α χ Unit :=
  match result with
  | none => d.dropRecord checkpoint failure onSuccess (some rawRecord)
  | some result =>
    if writerBatchSize ≤ 1 then
      d.writeProcessedRecord (some result) rawRecord checkpoint failure onSuccess
    else d.queueSuccessRecord fuel result rawRecord checkpoint writerBatchSize onSuccess

/-! ## The direct flush -/

/-- Collect the success hooks of the records of a batch. -/
def collectHooks : List (PendingWrite α χ) → Delivery ℓ α χ (List (PendingWrite α χ))
  | [] => pure []
  | item :: items => do
    let hooks ← successHookFor item.raw (some item.processed) item.onSuccess
    let items ← collectHooks items
    pure ({ item with onSuccess := hooks } :: items)

/-- The end of `flush_batch_direct` when every record was written: one save for the whole batch,
with the checkpoint of its last record. -/
def commitDirect (batch : List (PendingWrite α χ)) : Delivery ℓ α χ Unit := do
  countWritten batch.length
  noteWritten batch
  if d.checkpointStore then d.saveBatchCheckpoint (batch.getLast?.bind PendingWrite.checkpoint) batch.length
  else pure ()
  runHooks (batch.flatMap PendingWrite.onSuccess)

/-- `flush_batch_direct`; the items are the zipped lists of the source, which have equal lengths. -/
def flushBatchDirect (items : List (PendingWrite α χ)) : Delivery ℓ α χ Unit :=
  if items.isEmpty then pure ()
  else do
    let batch ← collectHooks items
    let written ← d.writeItems batch
    match written with
    | none => pure ()
    | some writeResults => do
      validateWriteResultCount "" batch.length writeResults.length
      if writeResults.all WriteResult.ok then d.commitDirect batch
      else do
        let outcomes ← d.resolveRecords (batch.zip writeResults)
        d.commitOutcomes outcomes

end DeliveryEngine

end AgoraEtl
