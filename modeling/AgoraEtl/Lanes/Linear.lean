import AgoraEtl.Lanes.Coordinator
import AgoraEtl.Delivery.Engine

/-!
# Linear lane execution strategy

The linear lane takes the records of the source through the whole chain one after the other.  What a
batched writer collects waits in one of three places: in the pending writes, which the lane flushes
itself; in the pending writes beside the pending-write owner; or in the `LinearBatchBuffer` of the
acceleration module, a first-in first-out list, from which a batch is written directly or queued.
-/

namespace AgoraEtl

open Effect Program

variable {ℓ α χ : Type} [DecidableEq α] [DecidableEq χ]

/-- The programs of the linear lane; its object is the list of records in the `LinearBatchBuffer`. -/
abbrev LinearDelivery (α χ : Type) : Type → Type := Delivery (List (PendingWrite α χ)) α χ

/-- `try … except Exception as exc: source_error = exc`. -/
def catchSourceError (p : Delivery ℓ α χ Unit) : Delivery ℓ α χ (Option Exc) :=
  catchException (do p; pure none) fun exc => pure (some exc)

/-- `if source_error is not None: raise source_error`. -/
def raiseSourceError : Option Exc → Delivery ℓ α χ Unit
  | none => pure ()
  | some exc => raise exc

/-- The record has been taken from the source; it is counted by the lane and in the counters. -/
def takeRecord (record : SourceRecord α χ) : Delivery ℓ α χ Unit := do
  note (.consumed record)
  consume 1
  modify fun s => { s with processedCount := s.processedCount + 1 }

namespace ExecutionCoordinator

variable (c : ExecutionCoordinator α χ)

/-! ## Through the pending writes -/

/-- Hand a record with its outcome to the delivery engine: `queue_processed_record` for a batched
writer, and `write_processed_record` otherwise. -/
def deliverRecord (fuel : ℕ) (record : SourceRecord α χ)
    (outcome : MiddlewareChain.RecordOutcome α) : LinearDelivery α χ Unit :=
  if 1 < c.writerBatchSize then
    c.delivery.queueProcessedRecord fuel outcome.1 record.raw record.checkpoint c.writerBatchSize
      outcome.2 record.onSuccess
  else
    c.delivery.writeProcessedRecord outcome.1 record.raw record.checkpoint outcome.2
      record.onSuccess

/-- The body of the loop over the source. -/
def queueRecord (fuel : ℕ) (record : SourceRecord α χ) : LinearDelivery α χ Unit := do
  takeRecord record
  let outcome ← c.chain.processOutcome record.raw
  if outcome.1.isSome then note (.accepted record) else pure ()
  c.deliverRecord fuel record outcome

/-- The lane without the buffer. -/
def runQueueLane (fuel : ℕ) (records : List (SourceRecord α χ)) : LinearDelivery α χ Unit := do
  let sourceError ← catchSourceError (forEach (c.queueRecord fuel) records)
  hotFlush
  c.delivery.flushPendingWrites
  raiseSourceError sourceError

/-! ## Through the buffer -/

/-- `buf.push`: whether the buffer has reached the batch size. -/
def pushBuffer (item : PendingWrite α χ) : LinearDelivery α χ Bool := do
  modify fun s => { s with lane := s.lane ++ [item] }
  let s ← read
  pure (decide (c.writerBatchSize ≤ s.lane.length))

/-- `buf.take_batch` and `buf.take_flush_batch`. -/
def takeBuffer : LinearDelivery α χ (List (PendingWrite α χ)) := do
  let s ← read
  modify fun s => { s with lane := [] }
  pure s.lane

/-- Queue the records of a batch one by one. -/
def queueBatch (fuel : ℕ) : List (PendingWrite α χ) → LinearDelivery α χ Unit
  | [] => pure ()
  | item :: items => do
    c.delivery.queueProcessedRecord fuel (some item.processed) item.raw item.checkpoint
      c.writerBatchSize none item.onSuccess
    queueBatch fuel items

/-- Empty the buffer, directly into the writer or into the pending writes. -/
def emptyBuffer (fuel : ℕ) : LinearDelivery α χ Unit := do
  let batch ← takeBuffer
  if c.directFlushEligible then c.delivery.flushBatchDirect batch else c.queueBatch fuel batch

/-- The body of the loop over the source. -/
def bufferRecord (fuel : ℕ) (record : SourceRecord α χ) : LinearDelivery α χ Unit := do
  takeRecord record
  let outcome ← c.chain.processOutcome record.raw
  match outcome.1 with
  | none => c.delivery.dropRecord record.checkpoint outcome.2 record.onSuccess (some record.raw)
  | some value => do
    note (.accepted record)
    let full ← c.pushBuffer ⟨value, record.raw, record.checkpoint, record.onSuccess⟩
    if full then c.emptyBuffer fuel else pure ()

/-- What is left in the buffer after the source has ended. -/
def emptyRemaining (fuel : ℕ) : LinearDelivery α χ Unit := do
  let s ← read
  if s.lane.isEmpty then pure ()
  else do
    c.emptyBuffer fuel
    if c.directFlushEligible then pure () else c.delivery.flushPendingWrites

/-- The lane with the buffer. -/
def runBufferLane (fuel : ℕ) (records : List (SourceRecord α χ)) : LinearDelivery α χ Unit := do
  let sourceError ← catchSourceError (forEach (c.bufferRecord fuel) records)
  c.emptyRemaining fuel
  hotFlush
  raiseSourceError sourceError

/-! ## The lane -/

/-- `_uses_pending_write_owner` for the batch size of the run. -/
def usesOwner : Bool := c.delivery.usesPendingWriteOwner c.writerBatchSize

/-- `LinearLaneStrategy.run`. -/
def runLinearLane (fuel : ℕ) (records : List (SourceRecord α χ)) : LinearDelivery α χ Unit :=
  if c.rustAvailable && decide (1 < c.writerBatchSize) && !c.usesOwner then
    c.runBufferLane fuel records
  else c.runQueueLane fuel records

end ExecutionCoordinator

end AgoraEtl
