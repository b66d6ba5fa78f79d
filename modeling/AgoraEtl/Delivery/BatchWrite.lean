import AgoraEtl.Delivery.Engine

/-!
# Batch write strategies

`writeBatchResult` delivers one batch of the batch lane: a batch whose middleware failed, a batch
that no middleware touched, and a batch from which middlewares may have dropped records.  All
outcomes of a batch carry the checkpoint of the end of the batch.
-/

namespace AgoraEtl

open Effect Program

variable {ℓ α χ : Type}

namespace DeliveryEngine

variable (d : DeliveryEngine α χ) [DecidableEq α] [DecidableEq χ]

/-- Route the same failure for every pair of a raw record and its processed form; whether all of
them were captured. -/
def routeAll (stage : String) (exc : Exc) (checkpoint : Option χ) (middleware : Option String) :
    List (α × Option α) → Delivery ℓ α χ Bool
  | [] => pure true
  | (rawRecord, processedRecord) :: pairs => do
    let ok ← d.writeToDlq stage exc rawRecord processedRecord checkpoint middleware
    let routed ← routeAll stage exc checkpoint middleware pairs
    pure (ok && routed)

/-- `write_batch_middleware_failure`. -/
def writeBatchMiddlewareFailure (rawBatch : List α) (checkpoint : Option χ)
    (batchFailure : BatchFailure) : Delivery ℓ α χ Unit := do
  countErrored rawBatch.length
  if d.dlqSink then do
    let routed ← d.routeAll "batch_middleware" batchFailure.exception checkpoint
      (some batchFailure.middleware) (rawBatch.map fun r => (r, none))
    if routed || d.sinkFailurePolicy = .logAndContinue then
      d.saveBatchCheckpoint checkpoint rawBatch.length
    else pure ()
  else if d.sinkFailurePolicy = .logAndContinue then
    d.saveBatchCheckpoint checkpoint rawBatch.length
  else raiseRecordDelivery batchFailure.exception

/-- Collect and run the success hooks of delivered pairs, one pair after the other. -/
def runPairHooks : List (α × α) → Delivery ℓ α χ Unit
  | [] => pure ()
  | (rawRecord, processedRecord) :: pairs => do
    let hooks ← successHookFor rawRecord (some processedRecord) []
    runHooks hooks
    runPairHooks pairs

/-- The handler of both batch writes for an exception of the writer. -/
def batchWriteFailed (exc : Exc) (checkpoint : Option χ) (batchSize : ℕ)
    (pairs : List (α × α)) (droppedHooks : List Hook) : Delivery ℓ α χ Unit := do
  let routed ← d.routeAll "sink_write" exc checkpoint none (pairs.map fun p => (p.1, some p.2))
  countErrored pairs.length
  if routed || d.sinkFailurePolicy = .logAndContinue then do
    d.saveBatchCheckpoint checkpoint batchSize
    runHooks droppedHooks
    if routed then runPairHooks pairs else pure ()
  else raiseRecordDelivery exc

/-- Resolve the results of a batch write; the hooks of a pair are collected before its result is
resolved. -/
def resolvePairs (checkpoint : Option χ) : List ((α × α) × WriteResult) →
    Delivery ℓ α χ (List (CommitOutcome χ))
  | [] => pure []
  | ((rawRecord, processedRecord), wr) :: items => do
    let hooks ← successHookFor rawRecord (some processedRecord) []
    let outcome ← d.resolveRecord wr rawRecord processedRecord checkpoint hooks
    let outcomes ← resolvePairs checkpoint items
    pure (outcome :: outcomes)

/-- Write pairs as one batch and commit the outcomes after those given. -/
def writePairs (checkpoint : Option χ) (batchSize : ℕ) (pairs : List (α × α))
    (dropped : List (List Hook)) : Delivery ℓ α χ Unit := do
  let written ← catchSinkException
    (do
      let writeResults ← d.writeBatch (pairs.map Prod.snd)
      pure (some writeResults))
    fun exc => do
      d.batchWriteFailed exc checkpoint batchSize pairs dropped.flatten
      pure none
  match written with
  | none => pure ()
  | some writeResults => do
    validateWriteResultCount "batch " pairs.length writeResults.length
    let outcomes ← d.resolvePairs checkpoint (pairs.zip writeResults)
    d.commitOutcomes (dropped.map (CommitOutcome.dropped checkpoint) ++ outcomes)

/-- `write_batch_passthrough`. -/
def writeBatchPassthrough (rawBatch : List α) (checkpoint : Option χ) : Delivery ℓ α χ Unit :=
  d.writePairs checkpoint rawBatch.length (rawBatch.map fun r => (r, r)) []

/-- The raw records with their processed forms, without the dropped ones. -/
def activeItems (rawBatch : List α) (results : List (Option α)) : List (α × α) :=
  (rawBatch.zip results).filterMap fun p => p.2.map fun processed => (p.1, processed)

/-- The raw records that were dropped. -/
def droppedRecords (rawBatch : List α) (results : List (Option α)) : List α :=
  (rawBatch.zip results).filterMap fun p => if p.2.isNone then some p.1 else none

/-- The success hooks of the dropped records. -/
def droppedHooks : List α → Delivery ℓ α χ (List (List Hook))
  | [] => pure []
  | record :: records => do
    let hooks ← successHookFor record none []
    let rest ← droppedHooks records
    pure (hooks :: rest)

/-- The error of `zip(..., strict=True)` for lists of different lengths. -/
def zipStrictError (left right : ℕ) : Exc :=
  .valueError (if right < left then "zip() argument 2 is shorter than argument 1"
    else "zip() argument 2 is longer than argument 1")

/-- `write_batch_filtered`. -/
def writeBatchFiltered (results : List (Option α)) (rawBatch : List α) (checkpoint : Option χ) :
    Delivery ℓ α χ Unit :=
  if rawBatch.length ≠ results.length then raise (zipStrictError rawBatch.length results.length)
  else do
    let pairs := activeItems rawBatch results
    countDropped (results.length - pairs.length)
    let hooks ← droppedHooks (droppedRecords rawBatch results)
    if pairs.isEmpty then do
      d.saveBatchCheckpoint checkpoint results.length
      runHooks hooks.flatten
    else d.writePairs checkpoint results.length pairs hooks

/-- `write_batch_result`. -/
def writeBatchResult (result : BatchProcessResult α) (rawBatch : List α) (checkpoint : Option χ) :
    Delivery ℓ α χ Unit :=
  match result.failure with
  | some batchFailure => d.writeBatchMiddlewareFailure rawBatch checkpoint batchFailure
  | none =>
    if result.passthrough then d.writeBatchPassthrough rawBatch checkpoint
    else d.writeBatchFiltered result.results rawBatch checkpoint

end DeliveryEngine

end AgoraEtl
