import AgoraEtl.Delivery.Support

/-!
# Resolving and committing write results

`resolveWriteResult` turns the answer of the writer for one record into a typed outcome, routing its
errors to the dead-letter queue; `commitOutcome`, `commitOutcomes` and `flushBatchOutcomes` apply the
checkpoint and hook effects of one outcome, of a list of outcomes, and of a batch whose write failed
as a whole.
-/

namespace AgoraEtl

open Effect Program

variable {ℓ α χ : Type}

/-- `RecordDeliveryError(exc)`. -/
def raiseRecordDelivery {β : Type} (exc : Exc) : Delivery ℓ α χ β := raise (.recordDelivery exc)

/-- Update the counters. -/
def count (f : Metrics → Metrics) : Delivery ℓ α χ Unit :=
  modify fun s => { s with metrics := f s.metrics }

/-- `metrics.records_errored += n`. -/
def countErrored (n : ℕ) : Delivery ℓ α χ Unit :=
  count fun m => { m with recordsErrored := m.recordsErrored + n }

/-- `metrics.records_dropped += n`. -/
def countDropped (n : ℕ) : Delivery ℓ α χ Unit :=
  count fun m => { m with recordsDropped := m.recordsDropped + n }

/-- `metrics.records_written += n`. -/
def countWritten (n : ℕ) : Delivery ℓ α χ Unit :=
  count fun m => { m with recordsWritten := m.recordsWritten + n }

/-- The error of a batch write that does not return one result per record. -/
def writeResultCountError (kind : String) (expected actual : ℕ) : Exc :=
  .runtimeError (s!"Writer.write_batch() must return one WriteResult per {kind}input record. " ++
    s!"Expected {expected}, got {actual}.")

/-- `validate_write_result_count`, and `_validate_write_results_length` with its batch kind. -/
def validateWriteResultCount (kind : String) (expected actual : ℕ) : Delivery ℓ α χ Unit :=
  if actual ≠ expected then raise (writeResultCountError kind expected actual) else pure ()

namespace DeliveryEngine

variable (d : DeliveryEngine α χ)

/-- Route the errors of one write result to the dead-letter queue; whether all of them were
captured. -/
def routeErrors (rawRecord processedRecord : α) (checkpoint : Option χ) :
    List Exc → Delivery ℓ α χ Bool
  | [] => pure true
  | err :: errs => do
    let routed ← d.writeToDlq "sink_write" err rawRecord (some processedRecord) checkpoint none
    let routedAll ← routeErrors rawRecord processedRecord checkpoint errs
    pure (routed && routedAll)

/-- How a failed record is handled if it is handled at all. -/
def failureHandling (routed : Bool) : Handling := if routed then .routed else .skipped

/-- `resolve_write_result`. -/
def resolveWriteResult (writeResult : WriteResult) (rawRecord processedRecord : α)
    (checkpoint : Option χ) (onSuccess : List Hook) : Delivery ℓ α χ (CommitOutcome χ) :=
  match writeResult.errors with
  | first :: rest => do
    let routedAll ← d.routeErrors rawRecord processedRecord checkpoint (first :: rest)
    countErrored 1
    if writeResult.written then countWritten 1 else pure ()
    if routedAll || d.sinkFailurePolicy = .logAndContinue then do
      note (.settled checkpoint (failureHandling routedAll))
      pure (.erroredRouted checkpoint
        (if writeResult.written || routedAll then onSuccess else []))
    else pure (.erroredUnrouted first)
  | [] =>
    if writeResult.written = false then do
      countDropped 1
      note (.settled checkpoint .dropped)
      pure (.dropped checkpoint onSuccess)
    else do
      countWritten 1
      note (.settled checkpoint .written)
      pure (.written checkpoint onSuccess)

variable [DecidableEq χ]

/-- The effects of an outcome that carries a checkpoint. -/
def commitCheckpointed (checkpoint : Option χ) (onSuccess : List Hook) : Delivery ℓ α χ Unit := do
  d.saveCheckpoint checkpoint
  runHooks onSuccess

/-- `commit_outcome`. -/
def commitOutcome : CommitOutcome χ → Delivery ℓ α χ Unit
  | .erroredUnrouted exc =>
    if d.sinkFailurePolicy = .failClosed then raiseRecordDelivery exc else pure ()
  | .written checkpoint onSuccess => d.commitCheckpointed checkpoint onSuccess
  | .dropped checkpoint onSuccess => d.commitCheckpointed checkpoint onSuccess
  | .erroredRouted checkpoint onSuccess => d.commitCheckpointed checkpoint onSuccess

/-- The pending checkpoint of a batch with the number of saves it stands for, and the hooks to run
after it. -/
structure PendingCommit (χ : Type) : Type where
  checkpoint : Option (Checkpoint χ × ℕ)
  hooks : List Hook

/-- Nothing is pending. -/
def PendingCommit.empty : PendingCommit χ := ⟨none, []⟩

/-- Persist the pending checkpoint and run the delivered hooks. -/
def finishCommit (pending : PendingCommit χ) : Delivery ℓ α χ Unit := do
  d.persistPending pending.checkpoint
  runHooks pending.hooks

/-- Count one handled record into the pending commit. -/
def preparePending (pending : PendingCommit χ) (checkpoint : Option χ) (hooks : List Hook) :
    Delivery ℓ α χ (PendingCommit χ) := do
  let prepared ← d.prepareCheckpoint checkpoint
  match prepared with
  | none => pure ⟨pending.checkpoint, pending.hooks ++ hooks⟩
  | some c =>
    pure ⟨some (c, (pending.checkpoint.map Prod.snd).getD 0 + 1), pending.hooks ++ hooks⟩

/-- The loop of `commit_outcomes`. -/
def commitOutcomesFrom : PendingCommit χ → List (CommitOutcome χ) → Delivery ℓ α χ Unit
  | pending, [] => d.finishCommit pending
  | pending, .erroredUnrouted exc :: outcomes => do
    d.finishCommit pending
    if d.sinkFailurePolicy = .failClosed then raiseRecordDelivery exc
    else commitOutcomesFrom .empty outcomes
  | pending, .written checkpoint onSuccess :: outcomes => do
    let pending ← d.preparePending pending checkpoint onSuccess
    commitOutcomesFrom pending outcomes
  | pending, .dropped checkpoint onSuccess :: outcomes => do
    let pending ← d.preparePending pending checkpoint onSuccess
    commitOutcomesFrom pending outcomes
  | pending, .erroredRouted checkpoint onSuccess :: outcomes => do
    let pending ← d.preparePending pending checkpoint onSuccess
    commitOutcomesFrom pending outcomes

/-- `commit_outcomes`. -/
def commitOutcomes (outcomes : List (CommitOutcome χ)) : Delivery ℓ α χ Unit :=
  d.commitOutcomesFrom .empty outcomes

/-- The loop of `flush_batch_outcomes`. -/
def flushBatchOutcomesFrom (exc : Exc) :
    PendingCommit χ → List (PendingWrite α χ) → Delivery ℓ α χ Unit
  | pending, [] => d.finishCommit pending
  | pending, item :: items => do
    let routed ← d.writeToDlq "sink_write" exc item.raw (some item.processed) item.checkpoint none
    countErrored 1
    if routed || d.sinkFailurePolicy = .logAndContinue then do
      note (.settled item.checkpoint (failureHandling routed))
      let pending ← d.preparePending pending item.checkpoint (if routed then item.onSuccess else [])
      flushBatchOutcomesFrom exc pending items
    else do
      d.finishCommit pending
      raiseRecordDelivery exc

/-- `flush_batch_outcomes`: the items are the zipped lists of the source. -/
def flushBatchOutcomes (exc : Exc) (items : List (PendingWrite α χ)) : Delivery ℓ α χ Unit :=
  d.flushBatchOutcomesFrom exc .empty items

end DeliveryEngine

end AgoraEtl
