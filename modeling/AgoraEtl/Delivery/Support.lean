import Mathlib.Logic.Function.Basic
import AgoraEtl.Delivery.Types

/-!
# Fencing, dead-letter writes, checkpoints and hooks

The helpers of the delivery engine: the run fence, the writer transport, the dead-letter writer, the
checkpoint manager and the success hooks of the pipeline context.
-/

namespace AgoraEtl

open Effect Program

variable {ℓ α χ β : Type}

/-- Redaction of the parts of a dead-letter record. -/
structure Redactor (α χ : Type) : Type where
  text : String → String
  record : α → α
  checkpoint : χ → χ
  details : FailureDetails → FailureDetails

/-- The configuration of the delivery engine. -/
structure DeliveryEngine (α χ : Type) : Type where
  pipelineId : String
  runId : String
  sourceName : String
  /-- A run fence is bound to the context. -/
  runFence : Bool
  /-- A dead-letter sink is configured. -/
  dlqSink : Bool
  dlqFailurePolicy : DLQFailurePolicy
  dlqRedactor : Option (Redactor α χ)
  sinkFailurePolicy : SinkFailurePolicy
  /-- A checkpoint store is configured. -/
  checkpointStore : Bool
  checkpointFailurePolicy : CheckpointFailurePolicy
  checkpointKey : String
  checkpointEvery : ℕ
  checkpointSourceIdentity : Option String
  batchFlushIntervalMs : Option ℕ
  /-- The configuration is normalized. -/
  checkpointEvery_pos : 0 < checkpointEvery

/-- An engine with a checkpoint store and the default policies. -/
def DeliveryEngine.standard (dlqSink : Bool) : DeliveryEngine α χ where
  pipelineId := "orders"
  runId := "run"
  sourceName := "source"
  runFence := false
  dlqSink := dlqSink
  dlqFailurePolicy := .logOnly
  dlqRedactor := none
  sinkFailurePolicy := .failClosed
  checkpointStore := true
  checkpointFailurePolicy := .failClosed
  checkpointKey := "orders"
  checkpointEvery := 1
  checkpointSourceIdentity := none
  batchFlushIntervalMs := none
  checkpointEvery_pos := Nat.one_pos

/-! ## Calling and catching -/

/-- Await an operation: it raises or returns a value. -/
def invoke (a : Await α χ) : Delivery ℓ α χ a.Value := do
  let r ← perform (.await a)
  ofExcept r

/-- `try … except Exception as exc`: the handler runs for exceptions only, and other errors
propagate. -/
def catchException (p : Delivery ℓ α χ β) (handler : Exc → Delivery ℓ α χ β) :
    Delivery ℓ α χ β := do
  let r ← attempt p
  match r with
  | .ok v => pure v
  | .error exc => if exc.isException then handler exc else raise exc

/-- `try … except FenceLostError: raise … except Exception as exc`. -/
def catchSinkException (p : Delivery ℓ α χ β) (handler : Exc → Delivery ℓ α χ β) :
    Delivery ℓ α χ β :=
  catchException p fun exc => if exc.isFenceLost then raise exc else handler exc

namespace DeliveryEngine

variable (d : DeliveryEngine α χ)

/-! ## Run fence and writer transport -/

/-- `assert_run_fence_active`. -/
def assertRunFenceActive : Delivery ℓ α χ Unit :=
  if d.runFence then do
    let active ← invoke .validateFence
    if active then pure ()
    else raise (.fenceLost
      "Pipeline run lost its distributed lease fence before a side effect.")
  else pure ()

/-- `_record_flush_metrics`. -/
def recordFlushMetrics (batchSize : ℕ) : Delivery ℓ α χ Unit :=
  modify fun s => { s with
    metrics := { s.metrics with
      writerFlushCount := s.metrics.writerFlushCount + 1
      writerFlushMaxBatchSize := max s.metrics.writerFlushMaxBatchSize batchSize } }

/-- `WriterTransport.write_one`. -/
def writeOne (record : α) : Delivery ℓ α χ WriteResult := do
  d.assertRunFenceActive
  let result ← invoke (.write record)
  recordFlushMetrics 1
  pure result

/-- `WriterTransport.write_batch`. -/
def writeBatch (records : List α) : Delivery ℓ α χ (List WriteResult) := do
  d.assertRunFenceActive
  let results ← invoke (.writeBatch records)
  recordFlushMetrics records.length
  pure results

/-- `WriterTransport.write_arrow_batch`. -/
def writeArrowBatch (rows : List α) : Delivery ℓ α χ Unit := do
  d.assertRunFenceActive
  invoke (.writeArrowBatch rows)
  recordFlushMetrics rows.length

/-! ## Dead-letter writes -/

/-- `_redact` for one kind of value. -/
def redact {γ : Type} (f : Redactor α χ → γ → γ) (value : γ) : γ :=
  match d.dlqRedactor with
  | none => value
  | some r => f r value

/-- The dead-letter record for a failure. -/
def dlqRecord (stage : String) (exc : Exc) (record originalRecord processedRecord : Option α)
    (checkpoint : Option χ) (middleware : Option String) : DLQRecord α χ where
  pipelineId := d.pipelineId
  runId := d.runId
  stage := stage
  errorType := exc.typeName
  errorMessage := d.redact Redactor.text exc.message
  record := ((originalRecord.orElse fun _ => record).orElse fun _ => processedRecord).map
    (d.redact Redactor.record)
  source := d.sourceName
  checkpoint := checkpoint.map (d.redact Redactor.checkpoint)
  details := d.redact Redactor.details ⟨exc.dlqDetails, classifyFailure exc⟩
  middleware := middleware
  originalRecord := originalRecord.map (d.redact Redactor.record)
  processedRecord := processedRecord.map (d.redact Redactor.record)

/-- The attempt of `DLQWriter.write`. -/
def attemptDlqWrite (stage : String) (exc : Exc) (record : α) (processedRecord : Option α)
    (checkpoint : Option χ) (middleware : Option String) : Delivery ℓ α χ Unit := do
  d.assertRunFenceActive
  let value ← match checkpoint with
    | some c => pure (some c)
    | none => invoke .currentCheckpoint
  invoke (.dlqWrite
    (d.dlqRecord stage exc (some record) (some record) processedRecord value middleware))

/-- `DLQWriter.write`: whether the failure was captured in the dead-letter queue. -/
def writeToDlq (stage : String) (exc : Exc) (record : α) (processedRecord : Option α)
    (checkpoint : Option χ) (middleware : Option String) : Delivery ℓ α χ Bool :=
  if d.dlqSink = false ∨ exc.dlqEligible = false then do
    note (.uncaptured stage false)
    pure false
  else do
    let written ← attempt
      (d.attemptDlqWrite stage exc record processedRecord checkpoint middleware)
    match written with
    | .ok () => pure true
    | .error dlqExc =>
      if dlqExc.isException then do
        modify fun s => { s with
          metrics := { s.metrics with dlqFailureCount := s.metrics.dlqFailureCount + 1 } }
        note (.uncaptured stage (d.dlqFailurePolicy = .raise))
        if d.dlqFailurePolicy = .raise then raise dlqExc else pure false
      else do
        note (.uncaptured stage true)
        raise dlqExc

/-! ## Checkpoints -/

/-- The checkpoint to be stored for a value. -/
def checkpointOf (value : χ) : Checkpoint χ where
  pipelineId := d.pipelineId
  runId := d.runId
  source := d.sourceName
  value := value
  sourceIdentity := d.checkpointSourceIdentity

/-- Count processed records and return the checkpoint if a save is due. -/
def countProcessed [DecidableEq χ] (value : χ) (count : ℕ) :
    Delivery ℓ α χ (Option (Checkpoint χ)) := do
  modify fun s => { s with checkpointState := s.checkpointState.incrementBy count }
  let s ← read
  if s.checkpointState.shouldSave value d.checkpointEvery then
    pure (some (d.checkpointOf value))
  else pure none

/-- `CheckpointManager.prepare`. -/
def prepareCheckpoint [DecidableEq χ] (value : Option χ) :
    Delivery ℓ α χ (Option (Checkpoint χ)) :=
  match d.checkpointStore, value with
  | true, some v => d.countProcessed v 1
  | _, _ => pure none

/-- `CheckpointManager.persist`. -/
def persistCheckpoint (checkpoint : Checkpoint χ) (batchSize : ℕ) : Delivery ℓ α χ Unit := do
  let saved ← catchException
    (do
      d.assertRunFenceActive
      if d.checkpointStore = false then
        raise (.runtimeError "checkpoint_store is None — cannot persist checkpoint")
      invoke (.saveCheckpoint d.checkpointKey checkpoint)
      pure true)
    fun exc => do
      modify fun s => { s with
        metrics := { s.metrics with
          checkpointFailureCount := s.metrics.checkpointFailureCount + 1 } }
      if d.checkpointFailurePolicy = .logAndContinue then pure false
      else raise (.checkpointSave exc)
  modify fun s => { s with checkpointState := s.checkpointState.markSaved checkpoint.value }
  if saved then
    modify fun s => { s with
      metrics := { s.metrics with
        checkpointSaveCount := s.metrics.checkpointSaveCount + 1
        checkpointSaveMaxBatchSize := max s.metrics.checkpointSaveMaxBatchSize batchSize } }
  else pure ()

/-- Persist the pending checkpoint, if there is one. -/
def persistPending : Option (Checkpoint χ × ℕ) → Delivery ℓ α χ Unit
  | none => pure ()
  | some (checkpoint, batchSize) => d.persistCheckpoint checkpoint batchSize

/-- `CheckpointManager.save`. -/
def saveCheckpoint [DecidableEq χ] (value : Option χ) : Delivery ℓ α χ Unit := do
  let checkpoint ← d.prepareCheckpoint value
  d.persistPending (checkpoint.map fun c => (c, 1))

/-- `CheckpointManager.save_batch`. -/
def saveBatchCheckpoint [DecidableEq χ] (value : Option χ) (batchSize : ℕ) :
    Delivery ℓ α χ Unit :=
  match d.checkpointStore, value with
  | true, some v =>
    if batchSize = 0 then pure ()
    else do
      let checkpoint ← d.countProcessed v batchSize
      d.persistPending (checkpoint.map fun c => (c, batchSize))
  | _, _ => pure ()

end DeliveryEngine

/-! ## Success hooks -/

/-- Run hooks in order. -/
def runHooks : List Hook → Delivery ℓ α χ Unit
  | [] => pure ()
  | hook :: hooks => do
    invoke (.successHook hook)
    runHooks hooks

section Hooks

variable [DecidableEq α]

/-- `register_success_hook` for a list of registrations. -/
def registerSuccessHooks (hooks : List (α × Registration)) : Delivery ℓ α χ Unit :=
  modify fun s => { s with
    successHooks := hooks.foldl
      (fun table r => Function.update table r.1 (table r.1 ++ [r.2])) s.successHooks }

/-- `transfer_success_hooks`. -/
def transferSuccessHooks (sourceRecord targetRecord : α) : Delivery ℓ α χ Unit :=
  if sourceRecord = targetRecord then pure ()
  else modify fun s =>
    let table := Function.update s.successHooks sourceRecord []
    let hooks := table targetRecord ++ s.successHooks sourceRecord
    { s with successHooks := Function.update table targetRecord hooks }

/-- Remove and return the registrations of a record. -/
def popRegistrations (record : α) : Delivery ℓ α χ (List Registration) := do
  let s ← read
  modify fun s => { s with successHooks := Function.update s.successHooks record [] }
  pure (s.successHooks record)

/-- `pop_success_hooks`; a record that occurs twice has no hooks left the second time. -/
def popSuccessHooks : List α → Delivery ℓ α χ (List Hook)
  | [] => pure []
  | record :: records => do
    let entries ← popRegistrations record
    let hooks ← popSuccessHooks records
    pure (entries.map Registration.hook ++ hooks)

/-- Run the discard callbacks of registrations; their exceptions are logged only. -/
def runDiscards : List Registration → Delivery ℓ α χ Unit
  | [] => pure ()
  | entry :: entries => do
    match entry.onDiscard with
    | none => pure ()
    | some discard => catchException (invoke (.discardHook discard)) fun _ => pure ()
    runDiscards entries

/-- `discard_success_hooks`. -/
def discardSuccessHooks : List α → Delivery ℓ α χ Unit
  | [] => pure ()
  | record :: records => do
    let entries ← popRegistrations record
    runDiscards entries
    discardSuccessHooks records

/-- `_success_hook_for`. -/
def successHookFor (rawRecord : α) (processedRecord : Option α) (onSuccess : List Hook) :
    Delivery ℓ α χ (List Hook) := do
  let hooks ← match processedRecord with
    | none => popSuccessHooks [rawRecord]
    | some processed => popSuccessHooks [rawRecord, processed]
  pure (onSuccess ++ hooks)

end Hooks

end AgoraEtl
