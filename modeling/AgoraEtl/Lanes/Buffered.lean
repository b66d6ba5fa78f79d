import Mathlib.Algebra.GroupWithZero.Nat
import AgoraEtl.Delivery.Engine
import AgoraEtl.Lanes.Batch

/-!
# Buffered lane execution strategy

The buffered lane cuts the chain at the stages that take records asynchronously.  A record goes
through the middlewares before the first of them, is submitted, and waits in a deque of pending
records for its future; the deque is committed from its head.  A record that does not get as far as
the first buffered stage is handed to the delivery engine at once.

With a single buffered stage the deque holds the futures of that stage, and the rest of the chain runs
when a record is taken out.  With several stages each record gets a task that runs the rest of the
chain, `processRecordThroughBufferedStages`.
-/

namespace AgoraEtl

open Effect Program

variable {ℓ α χ : Type} [DecidableEq α] [DecidableEq χ]

/-- A stage that takes records asynchronously, as the plan describes it. -/
structure BufferedStageSpec : Type where
  index : ℕ
  name : String
  concurrency : ℕ
  deriving DecidableEq, Repr

/-- A record in the deque: its future, or the failure of its submission. -/
structure PendingRecord (α χ : Type) : Type where
  sourceRecord : SourceRecord α χ
  future : Option Future
  immediateFailure : Option (MiddlewareFailure α)

/-- The deque of pending records and the current limit of their number. -/
structure BufferedState (α χ : Type) : Type where
  pendingRecords : List (PendingRecord α χ)
  stageLimit : ℕ

namespace BufferedState

/-- The futures of the pending records. -/
def futures {α χ : Type} (b : BufferedState α χ) : List (Option Future) :=
  b.pendingRecords.map PendingRecord.future

end BufferedState

/-- The programs of the buffered lane. -/
abbrev BufferedDelivery (α χ : Type) : Type → Type := Delivery (BufferedState α χ) α χ

/-- What the lane does differently for one and for several buffered stages. -/
structure BufferedVariant (α χ : Type) : Type where
  /-- Submit a record that has come as far as the first buffered stage with a value. -/
  submit : SourceRecord α χ → α → BufferedDelivery α χ (PendingRecord α χ)
  /-- Await a record that was taken out of the deque. -/
  collect : PendingRecord α χ → BufferedDelivery α χ (MiddlewareChain.RecordOutcome α)

/-- The failure of a buffered stage; it reports the record of the source. -/
def bufferedStageFailure (record : SourceRecord α χ) (name : String) (exc : Exc) :
    MiddlewareFailure α where
  stage := "buffered_middleware"
  record := record.raw
  middleware := name
  exception := exc

namespace ExecutionCoordinator

variable (c : ExecutionCoordinator α χ)

/-! ## One buffered stage -/

/-- `_submit_single_buffered_record`. -/
def submitSingleBufferedRecord (stage : BufferedStageSpec) (record : SourceRecord α χ) (value : α) :
    BufferedDelivery α χ (PendingRecord α χ) := do
  let submitted ← attempt (invoke (.submit stage.index value))
  match submitted with
  | .ok future => pure ⟨record, some future, none⟩
  | .error exc =>
    if exc.isException then
      pure ⟨record, none, some (bufferedStageFailure record stage.name exc)⟩
    else raise exc

/-- The first half of `_resolve_single_buffered_record`: the outcome of the record. -/
def collectSingleBufferedRecord (stage : BufferedStageSpec) (entry : PendingRecord α χ) :
    BufferedDelivery α χ (MiddlewareChain.RecordOutcome α) :=
  match entry.future with
  | none => pure (none, entry.immediateFailure)
  | some future => do
    let awaited ← attempt (invoke (.awaitFuture future))
    match awaited with
    | .error exc =>
      if exc.isException then
        pure (none, some (bufferedStageFailure entry.sourceRecord stage.name exc))
      else raise exc
    | .ok (.processed result failure) => pure (result, failure)
    | .ok (.value none) => pure (none, none)
    | .ok (.value (some value)) =>
      if stage.index + 1 < c.chain.length then
        c.chain.processRangeOutcome (stage.index + 1) c.chain.length value
      else pure (some value, none)

/-- The variant of `_run_single_buffered_stage`. -/
def singleVariant (stage : BufferedStageSpec) : BufferedVariant α χ where
  submit := submitSingleBufferedRecord stage
  collect := c.collectSingleBufferedRecord stage

/-! ## Several buffered stages -/

/-- The loop of `process_record_through_buffered_stages`, from the stage of the chain it has come to;
the rest of the chain follows the last buffered stage. -/
def processThroughStages (record : SourceRecord α χ) :
    ℕ → List BufferedStageSpec → α → Delivery ℓ α χ (MiddlewareChain.RecordOutcome α)
  | start, [], current => c.chain.processRangeOutcome start c.chain.length current
  | start, stage :: stages, current => do
    let reached ←
      if start < stage.index then c.chain.processRangeOutcome start stage.index current
      else pure (some current, none)
    match reached.1 with
    | none => pure reached
    | some value => do
      let processed ← attempt (do
        let future ← invoke (.submit stage.index value)
        invoke (.awaitFuture future))
      match processed with
      | .error exc =>
        if exc.isException then
          pure (none, some (bufferedStageFailure record stage.name exc))
        else raise exc
      -- the future of a stage completes with a plain value, that of a record's task does not
      | .ok (.processed result failure) => pure (result, failure)
      | .ok (.value none) => pure (none, none)
      | .ok (.value (some next)) => processThroughStages record (stage.index + 1) stages next

/-- `process_record_through_buffered_stages`. -/
def processRecordThroughBufferedStages (record : SourceRecord α χ) (first : BufferedStageSpec)
    (stages : List BufferedStageSpec) (current : α) :
    Delivery ℓ α χ (MiddlewareChain.RecordOutcome α) :=
  c.processThroughStages record first.index (first :: stages) current

/-- Create the task of a record. -/
def createStagesTask (record : SourceRecord α χ) (value : α) :
    BufferedDelivery α χ (PendingRecord α χ) := do
  let future ← perform (Call.createStagesTask record.raw value)
  pure ⟨record, some future, none⟩

/-- `dispatch_resolved_buffered_record` up to the dispatch; `_coerce_processed_record` takes a plain
value through the chain behind the first stage. -/
def collectBufferedRecord (first : BufferedStageSpec) (entry : PendingRecord α χ) :
    BufferedDelivery α χ (MiddlewareChain.RecordOutcome α) :=
  match entry.future with
  | none => pure (none, entry.immediateFailure)
  | some future => do
    let awaited ← attempt (invoke (.awaitFuture future))
    match awaited with
    | .error exc =>
      if exc.isException then
        pure (none, some (bufferedStageFailure entry.sourceRecord first.name exc))
      else raise exc
    | .ok (.processed result failure) => pure (result, failure)
    | .ok (.value none) => pure (none, none)
    | .ok (.value (some value)) =>
      c.chain.processRangeOutcome (first.index + 1) c.chain.length value

/-- The variant of `BufferedLaneStrategy.run` for several stages. -/
def multiVariant (first : BufferedStageSpec) : BufferedVariant α χ where
  submit := createStagesTask
  collect := c.collectBufferedRecord first

/-! ## Committing records -/

/-- Update the objects of the buffered lane. -/
def modifyBuffered (f : BufferedState α χ → BufferedState α χ) : BufferedDelivery α χ Unit :=
  modify fun s => { s with lane := f s.lane }

/-- Records are queued for the writer. -/
def hasQueued (s : RunState ℓ α χ) : Bool :=
  !s.pendingWrites.isEmpty || s.pendingWriteOwner.isSome

/-- Commit records, noting an exception. -/
def committing (streaming : Bool) (p : BufferedDelivery α χ Unit) : BufferedDelivery α χ Unit := do
  let committed ← attempt p
  match committed with
  | .ok () => pure ()
  | .error exc => do
    let s ← read
    note (.commitRaised exc streaming s.lane.futures (hasQueued s))
    raise exc

/-- Hand a record with its outcome to the delivery engine. -/
def dispatchRecord (fuel : ℕ) (record : SourceRecord α χ)
    (outcome : MiddlewareChain.RecordOutcome α) : BufferedDelivery α χ Unit := do
  note (.dispatched record outcome.1 outcome.2)
  c.delivery.dispatchProcessedResult fuel outcome.1 record.raw record.checkpoint c.writerBatchSize
    outcome.2 record.onSuccess

variable (v : BufferedVariant α χ)

/-- Resolve a record that was taken out of the deque: `_resolve_single_buffered_record` and
`resolve_buffered_record`. -/
def resolveBufferedRecord (fuel : ℕ) (streaming : Bool) (entry : PendingRecord α χ) :
    BufferedDelivery α χ Unit :=
  committing streaming do
    let outcome ← v.collect entry
    c.dispatchRecord fuel entry.sourceRecord outcome

/-- `pending_records.popleft()` and the resolution of the record. -/
def takeBufferedRecord (fuel : ℕ) (streaming : Bool) (entry : PendingRecord α χ) :
    BufferedDelivery α χ Unit := do
  modifyBuffered fun b => { b with pendingRecords := b.pendingRecords.tail }
  c.resolveBufferedRecord v fuel streaming entry

/-- One round of the loop of `_drain_ready_*_buffered_records`. -/
def drainReadyRound (fuel : ℕ) (streaming : Bool) : Unit → BufferedDelivery α χ (Unit ⊕ Unit)
  | () => do
    let s ← read
    match s.lane.pendingRecords with
    | [] => pure (.inr ())
    | entry :: _ => do
      let done ← match entry.future with
        | none => pure true
        | some future => perform (Call.futureDone future)
      if done then do
        c.takeBufferedRecord v fuel streaming entry
        pure (.inl ())
      else pure (.inr ())

/-- `_drain_ready_*_buffered_records`. -/
def drainReadyRecords (fuel : ℕ) (streaming : Bool) : BufferedDelivery α χ Unit :=
  iterate (c.drainReadyRound v fuel streaming) fuel ()

/-- `_commit_next_*_buffered_record`. -/
def commitNextRecord (fuel : ℕ) (streaming : Bool) : BufferedDelivery α χ Unit := do
  let s ← read
  match s.lane.pendingRecords with
  | [] => pure ()
  | entry :: _ => c.takeBufferedRecord v fuel streaming entry

/-! ## The streaming loop -/

/-- The adaptive controller sets the limit of pending records. -/
def observeLimit (pendingCount : ℕ) : BufferedDelivery α χ Unit :=
  if c.adaptiveBackpressure then do
    let limit : ℕ ← perform (Call.observeLimit pendingCount)
    modifyBuffered fun b => { b with stageLimit := limit }
  else pure ()

/-- One round of the loop that keeps the number of pending records under the limit. -/
def limitRecordsRound (fuel : ℕ) : Unit → BufferedDelivery α χ (Unit ⊕ Unit)
  | () => do
    let s ← read
    if s.lane.pendingRecords.length < s.lane.stageLimit then pure (.inr ())
    else do
      c.observeLimit s.lane.pendingRecords.length
      c.drainReadyRecords v fuel true
      let s ← read
      if s.lane.pendingRecords.length < s.lane.stageLimit then pure (.inr ())
      else do
        c.commitNextRecord v fuel true
        pure (.inl ())

/-- Take a record through the middlewares before the first buffered stage and submit it; the outcome
of a record that does not get there is returned at once. -/
def enterRecord (splitIndex : ℕ) (record : SourceRecord α χ) :
    BufferedDelivery α χ (MiddlewareChain.RecordOutcome α ⊕ PendingRecord α χ) := do
  let prefixOutcome ← c.chain.processRangeOutcome 0 splitIndex record.raw
  match prefixOutcome.1 with
  | none => pure (.inl prefixOutcome)
  | some value => do
    let entry ← v.submit record value
    pure (.inr entry)

/-- The body of the streaming loop. -/
def streamRecord (fuel splitIndex : ℕ) (record : SourceRecord α χ) : BufferedDelivery α χ Unit := do
  consume 1
  modify fun s => { s with processedCount := s.processedCount + 1 }
  let entered ← c.enterRecord v splitIndex record
  match entered with
  | .inl outcome => do
    let s ← read
    note (.prefixRejected s.lane.pendingRecords.length)
    committing true (c.dispatchRecord fuel record outcome)
  | .inr entry => do
    modifyBuffered fun b => { b with pendingRecords := b.pendingRecords ++ [entry] }
    iterate (c.limitRecordsRound v fuel) fuel ()

/-! ## Draining and aborting -/

/-- `_abort_pending_work` and `_abort_single_stage_pending_work`. -/
def abortPendingWork : BufferedDelivery α χ Unit := do
  modify fun s => { s with pendingWrites := [] }
  let _ ← attempt DeliveryEngine.closePendingWriteOwner
  let s ← read
  modifyBuffered fun b => { b with pendingRecords := [] }
  let futures := s.lane.futures.filterMap id
  PipelinedVariant.cancelFutures futures
  if futures.isEmpty then pure () else invoke (.gather futures)

/-- One round of the loop that drains the pending records after the stream has ended. -/
def drainRecordsRound (fuel : ℕ) : Unit → BufferedDelivery α χ (Unit ⊕ Unit)
  | () => do
    let s ← read
    if s.lane.pendingRecords.isEmpty then pure (.inr ())
    else do
      invoke .drainBuffered
      invoke .sleep
      c.drainReadyRecords v fuel false
      let s ← read
      if s.lane.pendingRecords.isEmpty then pure (.inr ())
      else do
        c.commitNextRecord v fuel false
        pure (.inl ())

/-- Drain the pending records and flush what is queued for the writer; any exception aborts. -/
def drainPendingRecords (fuel : ℕ) : BufferedDelivery α χ Unit := do
  let drained ← attempt (do
    invoke .sleep
    iterate (c.drainRecordsRound v fuel) fuel ()
    committing false c.delivery.flushPendingWrites)
  match drained with
  | .ok () => pure ()
  | .error exc => do
    abortPendingWork
    raise exc

/-- The lane for one variant. -/
def runBuffered (fuel splitIndex : ℕ) (records : List (SourceRecord α χ)) :
    BufferedDelivery α χ Unit := do
  let streamed ← attempt (forEach (c.streamRecord v fuel splitIndex) records)
  hotFlush
  match streamed with
  | .error exc =>
    if mustAbortPendingWork exc then do
      abortPendingWork
      raise exc
    else do
      c.drainPendingRecords v fuel
      raise exc
  | .ok () => c.drainPendingRecords v fuel

/-- The limit of pending records at the start; `currentLimit` is that of the adaptive controller. -/
def bufferedStageLimit (stages : List BufferedStageSpec) (currentLimit : ℕ) : ℕ :=
  if c.adaptiveBackpressure then currentLimit
  else
    let limit := max 1 (stages.map BufferedStageSpec.concurrency).sum
    max 1 (match c.maxBufferSize with
      | none => limit
      | some size => min limit size)

/-- `BufferedLaneStrategy.run`. -/
def runBufferedLane (fuel : ℕ) (stages : List BufferedStageSpec) (currentLimit : ℕ)
    (records : List (SourceRecord α χ)) : BufferedDelivery α χ Unit :=
  match stages with
  | [] => raise (.runtimeError "buffered lane selected without buffered stages")
  | first :: rest => do
    modifyBuffered fun b => { b with stageLimit := c.bufferedStageLimit stages currentLimit }
    if rest.isEmpty then c.runBuffered (c.singleVariant first) fuel first.index records
    else c.runBuffered (c.multiVariant first) fuel first.index records

end ExecutionCoordinator

end AgoraEtl
