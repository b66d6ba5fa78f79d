import AgoraEtl.Delivery.Fencing
import AgoraEtl.Delivery.Owner
import AgoraEtl.Lanes.Linear
import AgoraEtl.Lanes.Buffered

/-!
# Fencing of whole runs

Every lane is composed of fenced programs of the delivery engine and of calls that are no side effects,
so that a run with a bound fence passes the check before each side effect.  What a run that has lost its
lease can still do is counted here: a lane that runs alone makes at most the one side effect whose check
had already succeeded, and none at all once its own check has failed; beside the pending-write owner this
holds of each of the two tasks.
-/

namespace AgoraEtl

open Effect Program

variable {ℓ α χ β : Type}

/-! ## The chain -/

namespace MiddlewareChain

/-- A middleware reaches no sink of the engine. -/
theorem guarded_processBatch (mw : Middleware) (index : ℕ) (records : List (Option α)) :
    Fenced (mw.processBatch index records : Delivery ℓ α χ (List (Option α))) :=
  guarded_bind (guarded_invoke rfl) fun _ => guarded_ite (guarded_ofExcept _) (guarded_ret _)

/-- Applying a batch middleware reaches no sink. -/
theorem guarded_applyBatchMiddleware (mw : Middleware) (index : ℕ) (current : List (Option α)) :
    Fenced (applyBatchMiddleware mw index current : Delivery ℓ α χ (StageResult α)) := by
  refine guarded_bind (guarded_attempt (guarded_processBatch _ _ _)) fun processed => ?_
  cases processed with
  | error exc => exact guarded_ite (guarded_ret _) (guarded_raise _)
  | ok results => exact guarded_ite (guarded_raise _) (guarded_ret _)

/-- The stages of an Arrow chain reach no sink. -/
theorem guarded_applyArrowStages (stages : List (Middleware × ℕ)) (rows : List α) :
    Fenced (applyArrowStages stages rows : Delivery ℓ α χ (ArrowProcessResult α)) := by
  induction stages generalizing rows with
  | nil => exact guarded_ret _
  | cons stage stages ih =>
    refine guarded_ite (guarded_bind (guarded_attempt (guarded_invoke rfl)) fun processed => ?_)
      (ih rows)
    cases processed with
    | error exc => exact guarded_ite (guarded_ret _) (guarded_raise _)
    | ok rows => exact guarded_ite (guarded_ret _) (ih rows)

variable [DecidableEq α]

omit [DecidableEq α] in
/-- A predicate is no side effect of the engine. -/
theorem guarded_callPredicate (index : ℕ) (record : α) :
    Fenced (Middleware.callPredicate index record : Delivery ℓ α χ (Option α)) :=
  guarded_bind (guarded_invoke rfl) fun _ => guarded_ret _

/-- A call of `process` is no side effect of the engine. -/
theorem guarded_callProcess (index : ℕ) (record : α) :
    Fenced (Middleware.callProcess index record : Delivery ℓ α χ (Option α)) :=
  guarded_bind (guarded_perform rfl) fun _ => guarded_bind (guarded_modify _) fun _ =>
    guarded_ofExcept _

/-- Processing a record in one middleware is fenced. -/
theorem guarded_process (mw : Middleware) (index : ℕ) (record : α) :
    Fenced (mw.process index record : Delivery ℓ α χ (Option α)) := by
  unfold Middleware.process
  cases mw.kind with
  | filter isAsync => exact guarded_callPredicate _ _
  | batch => exact guarded_bind (guarded_invoke rfl) fun _ => guarded_ret _
  | processBatch => exact guarded_raise _
  | arrowBatch => exact guarded_ret _
  | arrowProcessBatch => exact guarded_ret _
  | map isAsync => exact guarded_callProcess _ _
  | perRecord => exact guarded_callProcess _ _

/-- Processing a record in all of its stages is fenced. -/
theorem guarded_processStages (record current : α) (stages : List (Middleware × ℕ)) :
    Fenced (processStages record current stages : Delivery ℓ α χ (RecordOutcome α)) := by
  induction stages generalizing current with
  | nil => exact guarded_ret _
  | cons stage stages ih =>
    refine guarded_bind (guarded_attempt (guarded_process _ _ _)) fun processed => ?_
    rcases processed with exc | _ | value
    · exact guarded_ite (guarded_bind (guarded_invoke rfl) fun _ => guarded_ret _) (guarded_raise _)
    · exact guarded_ret _
    · exact guarded_bind (guarded_transferSuccessHooks _ _) fun _ => ih value

/-- Applying a stage record by record is fenced. -/
theorem guarded_applyPerRecord (stage : Middleware × ℕ) (records : List (Option α)) :
    Fenced (applyPerRecord stage records : Delivery ℓ α χ (List (Option α))) := by
  induction records with
  | nil => exact guarded_ret _
  | cons record records ih =>
    cases record with
    | none => exact guarded_bind ih fun _ => guarded_ret _
    | some record =>
      exact guarded_bind (guarded_processStages _ _ _) fun _ => guarded_bind ih fun _ =>
        guarded_ret _

omit [DecidableEq α] in
/-- A loop of synchronous calls is fenced if the calls are. -/
theorem guarded_applySyncLoop (index : ℕ) {call : α → Delivery ℓ α χ (Option α)}
    (hcall : ∀ record, Fenced (call record)) (records : List (Option α)) :
    Fenced (applySyncLoop index call records) := by
  induction records with
  | nil => exact guarded_ret _
  | cons record records ih =>
    cases record with
    | none => exact guarded_bind ih fun _ => guarded_ret _
    | some record =>
      refine guarded_bind (guarded_catchException (hcall record) fun exc => ?_) fun _ =>
        guarded_bind ih fun _ => guarded_ret _
      exact guarded_bind (guarded_invoke rfl) fun _ => guarded_ret _

/-- Applying a stage to a batch is fenced, whichever way it takes. -/
theorem guarded_applyInBatch (mw : Middleware) (index : ℕ) (current : List (Option α)) :
    Fenced (applyInBatch mw index current : Delivery ℓ α χ (StageResult α)) := by
  have hmap : Fenced (applySyncMapBatch index current : Delivery ℓ α χ (List (Option α))) :=
    guarded_ite (guarded_ret _) (guarded_applySyncLoop _ (guarded_callProcess _) _)
  have hfilter : Fenced (applySyncFilterBatch index current : Delivery ℓ α χ (List (Option α))) :=
    guarded_ite (guarded_ret _) (guarded_applySyncLoop _ (guarded_callPredicate _) _)
  have hrecords : Fenced (Sum.inr <$> applyPerRecord (mw, index) current :
      Delivery ℓ α χ (StageResult α)) :=
    guarded_bind (guarded_applyPerRecord _ _) fun _ => guarded_ret _
  unfold applyInBatch
  cases mw.kind with
  | map isAsync =>
    cases isAsync with
    | false => exact guarded_bind hmap fun _ => guarded_ret _
    | true => exact hrecords
  | filter isAsync =>
    cases isAsync with
    | false => exact guarded_bind hfilter fun _ => guarded_ret _
    | true => exact hrecords
  | perRecord => exact hrecords
  | batch => exact guarded_applyBatchMiddleware _ _ _
  | processBatch => exact guarded_applyBatchMiddleware _ _ _
  | arrowBatch => exact guarded_ret _
  | arrowProcessBatch => exact guarded_ret _

/-- Applying all stages to a batch is fenced. -/
theorem guarded_applyStages (stages : List (Middleware × ℕ)) (current : List (Option α)) :
    Fenced (applyStages stages current : Delivery ℓ α χ (BatchProcessResult α)) := by
  induction stages generalizing current with
  | nil => exact guarded_ret _
  | cons stage stages ih =>
    refine guarded_bind (guarded_applyInBatch _ _ _) fun result => ?_
    cases result with
    | inl failure => exact guarded_ret _
    | inr next => exact ih next

end MiddlewareChain

/-! ## What the lanes share -/

/-- Counting consumed records is no side effect. -/
theorem guarded_consume (n : ℕ) : Fenced (consume n : Delivery ℓ α χ Unit) :=
  guarded_bind (guarded_bind (guarded_modify _) fun _ => guarded_bind guarded_read fun _ =>
    guarded_ret _) fun _ => guarded_ite (guarded_modify _) (guarded_ret ())

/-- A loop over a stream is fenced if its body is. -/
theorem guarded_forEach {ρ : Type} {body : ρ → Delivery ℓ α χ Unit}
    (hbody : ∀ element, Fenced (body element)) (elements : List ρ) :
    Fenced (forEach body elements) := by
  induction elements with
  | nil => exact guarded_invoke rfl
  | cons element elements ih =>
    exact guarded_bind (guarded_invoke rfl) fun _ => guarded_bind (hbody element) fun _ => ih

/-- Cancelling futures reaches no sink. -/
theorem guarded_cancelFutures (futures : List Future) :
    Fenced (PipelinedVariant.cancelFutures futures : Delivery ℓ α χ Unit) := by
  induction futures with
  | nil => exact guarded_ret ()
  | cons future futures ih =>
    exact guarded_bind (guarded_perform rfl) fun _ =>
      guarded_ite ih (guarded_bind (guarded_perform rfl) fun _ => ih)

/-! ## The batch lane -/

namespace ExecutionCoordinator

variable [DecidableEq χ] {c : ExecutionCoordinator α χ} (hfence : c.delivery.runFence = true)

include hfence

omit [DecidableEq χ] in
/-- Writing the rows of an Arrow batch comes behind the check of the fence. -/
theorem guarded_writeArrowRows (rows : List α) :
    Fenced (c.writeArrowRows rows : Delivery ℓ α χ Unit) := by
  have hcount : Fenced (do incWritten rows.length; consume 0 : Delivery ℓ α χ Unit) :=
    guarded_bind (guarded_modify _) fun _ => guarded_consume 0
  refine guarded_ite
    (guarded_bind (DeliveryEngine.guarded_writeArrowBatch hfence rows) fun _ => hcount) ?_
  refine guarded_bind (DeliveryEngine.guarded_writeBatch hfence rows) fun results => ?_
  split
  · exact guarded_bind (guarded_raise _) fun _ => hcount
  · exact guarded_ite hcount (guarded_bind (guarded_raise _) fun _ => hcount)

omit [DecidableEq χ] in
/-- An Arrow batch whose write raised is routed and saved behind checks. -/
theorem guarded_arrowWriteFailed (exc : Exc) (checkpoint : Option χ) (rawRows rows : List α) :
    Fenced (c.arrowWriteFailed exc checkpoint rawRows rows : Delivery ℓ α χ Unit) := by
  refine guarded_bind (guarded_count _) fun _ => guarded_ite ?_ ?_
  · refine guarded_bind (DeliveryEngine.guarded_routeAll hfence _ _ _ _ _) fun routed => ?_
    refine guarded_ite (guarded_bind (guarded_raise _) fun _ => ?_)
      (guarded_bind (guarded_ret _) fun _ => ?_)
    all_goals exact guarded_ite (guarded_ret ()) (guarded_raise _)
  · exact guarded_bind (guarded_ret _) fun _ => guarded_ite (guarded_ret ()) (guarded_raise _)

/-- Delivering the rows of an Arrow batch is fenced. -/
theorem guarded_deliverArrowRows (batch : SourceBatch α χ) (rows : List α) :
    Fenced (c.deliverArrowRows batch rows : Delivery ℓ α χ Unit) :=
  guarded_bind (guarded_catchException (guarded_writeArrowRows hfence rows) fun _ =>
    guarded_arrowWriteFailed hfence _ _ _ _) fun _ =>
      guarded_bind (DeliveryEngine.guarded_saveBatchCheckpoint hfence _ _) fun _ => guarded_modify _

/-- An Arrow batch that failed in a middleware is routed and saved behind checks. -/
theorem guarded_arrowMiddlewareFailed (batch : SourceBatch α χ) (failure : BatchFailure) :
    Fenced (c.arrowMiddlewareFailed batch failure : Delivery ℓ α χ Unit) := by
  have hrest : ∀ routed : Bool, Fenced
      (if (routed || decide (c.delivery.sinkFailurePolicy = .logAndContinue)) = true then
        (do c.delivery.saveBatchCheckpoint batch.checkpoint batch.rows.length; hotFlush)
      else (do raiseRecordDelivery failure.exception; hotFlush) : Delivery ℓ α χ Unit) := fun _ =>
    guarded_ite
      (guarded_bind (DeliveryEngine.guarded_saveBatchCheckpoint hfence _ _) fun _ => guarded_modify _)
      (guarded_bind (guarded_raise _) fun _ => guarded_modify _)
  refine guarded_bind (guarded_count _) fun _ => guarded_ite ?_ (guarded_bind (guarded_ret _) hrest)
  exact guarded_bind (DeliveryEngine.guarded_routeAll hfence _ _ _ _ _) hrest

/-- Finalizing an Arrow batch is fenced. -/
theorem guarded_finalizeArrowBatchResult (batch : SourceBatch α χ)
    (result : MiddlewareChain.ArrowProcessResult α) :
    Fenced (c.finalizeArrowBatchResult batch result : Delivery ℓ α χ Unit) := by
  refine guarded_bind (guarded_note _) fun _ => ?_
  cases result.failure with
  | some failure => exact guarded_arrowMiddlewareFailed hfence _ _
  | none =>
    exact guarded_ite
      (guarded_bind (DeliveryEngine.guarded_saveBatchCheckpoint hfence _ _) fun _ =>
        guarded_modify _)
      (guarded_deliverArrowRows hfence _ _)

variable [DecidableEq α]

/-- Finalizing a batch of records is fenced. -/
theorem guarded_finalizeListBatchResult (batch : SourceBatch α χ) (result : BatchProcessResult α) :
    Fenced (c.finalizeListBatchResult batch result : Delivery ℓ α χ Unit) :=
  guarded_bind (guarded_note _) fun _ =>
    guarded_bind (DeliveryEngine.guarded_writeBatchResult hfence _ _ _) fun _ => guarded_modify _

omit [DecidableEq χ] [DecidableEq α] hfence in
/-- Counting a batch as consumed calls nothing. -/
theorem guarded_incConsumed (n : ℕ) : Fenced (incConsumed n : Delivery ℓ α χ Bool) :=
  guarded_bind (guarded_modify _) fun _ => guarded_bind guarded_read fun _ => guarded_ret _

/-- The sequential batch lane is fenced. -/
theorem guarded_runSequentialBatches (batches : List (SourceBatch α χ)) :
    Fenced (c.runSequentialBatches batches : Delivery ℓ α χ Unit) := by
  refine guarded_bind (guarded_forEach (fun batch => guarded_ite ?_ ?_) _) fun _ => guarded_modify _
  · refine guarded_bind (guarded_incConsumed _) fun _ => guarded_ite ?_ ?_
    · exact guarded_bind (guarded_note _) fun _ => guarded_deliverArrowRows hfence _ _
    · exact guarded_bind (MiddlewareChain.guarded_applyArrowStages _ _) fun _ =>
        guarded_finalizeArrowBatchResult hfence _ _
  · exact guarded_bind (guarded_incConsumed _) fun _ =>
      guarded_bind (guarded_ite (guarded_ret _) (MiddlewareChain.guarded_applyStages _ _)) fun _ =>
        guarded_finalizeListBatchResult hfence _ _

end ExecutionCoordinator

namespace PipelinedVariant

variable {ρ : Type}

/-- The programs of a variant of the pipelined lane are fenced. -/
structure AllFenced (v : PipelinedVariant α χ ρ) : Prop where
  enter : ∀ batch, Fenced (v.enter batch)
  collect : ∀ task, Fenced (v.collect task)
  finalize : ∀ batch result, Fenced (v.finalize batch result)

variable {v : PipelinedVariant α χ ρ} (hv : v.AllFenced)

include hv

/-- Submitting a batch to the pipelined lane is fenced. -/
theorem guarded_submit (batch : SourceBatch α χ) : Fenced (v.submit batch) := by
  refine guarded_bind (hv.enter batch) fun entered => ?_
  cases entered with
  | inl result =>
    exact guarded_bind (guarded_bind guarded_read fun _ => guarded_bind (guarded_note _) fun _ =>
      hv.finalize _ _) fun _ => guarded_ret _
  | inr task => exact guarded_ret _

/-- Resolving a batch that was taken from the pipeline is fenced. -/
theorem guarded_resolveTaken (streaming : Bool) (task : BatchTask) (batch : SourceBatch α χ) :
    Fenced (v.resolveTaken streaming task batch) := by
  refine guarded_bind (guarded_attempt (guarded_bind (hv.collect task) fun _ => hv.finalize _ _))
    fun resolved => ?_
  cases resolved with
  | ok u => exact guarded_ret _
  | error exc => exact guarded_bind guarded_read fun _ => guarded_bind (guarded_note _) fun _ =>
      guarded_raise _

/-- Committing the batches that are ready is fenced. -/
theorem guarded_drainReady (fuel : ℕ) (streaming : Bool) (nextCommit : ℕ) :
    Fenced (v.drainReady fuel streaming nextCommit) := by
  refine guarded_iterate (fun k => ?_) fuel nextCommit
  refine guarded_bind (guarded_bind guarded_read fun _ => guarded_ret _) fun entry => ?_
  cases entry with
  | none => exact guarded_ret _
  | some entry =>
    refine guarded_bind (guarded_perform rfl) fun _ => guarded_ite ?_ (guarded_ret _)
    exact guarded_bind (guarded_modify _) fun _ =>
      guarded_bind (guarded_resolveTaken hv _ _ _) fun _ => guarded_ret _

/-- Committing the next batch is fenced. -/
theorem guarded_commitNext (streaming : Bool) (nextCommit : ℕ) :
    Fenced (v.commitNext streaming nextCommit) := by
  refine guarded_bind (guarded_bind guarded_read fun _ => guarded_ret _) fun entry => ?_
  cases entry with
  | none => exact guarded_ret _
  | some entry =>
    exact guarded_bind (guarded_modify _) fun _ =>
      guarded_bind (guarded_resolveTaken hv _ _ _) fun _ => guarded_ret _

omit hv in
/-- Advancing the number of the next commit is fenced if the step is. -/
theorem guarded_advanceCommit {helper : ℕ → PipelineDelivery α χ ℕ}
    (hhelper : ∀ n, Fenced (helper n)) : Fenced (advanceCommit helper) :=
  guarded_bind guarded_read fun _ => guarded_bind (hhelper _) fun _ => guarded_modify _

/-- What the pipelined lane does with one batch of the stream is fenced. -/
theorem guarded_streamBatch (fuel limit : ℕ) (batch : SourceBatch α χ) :
    Fenced (v.streamBatch fuel limit batch) := by
  have hlimit : Fenced (iterate (v.limitRound fuel limit) fuel ()) := by
    refine guarded_iterate (fun _ => ?_) fuel ()
    refine guarded_bind guarded_read fun _ => guarded_ite (guarded_ret _) ?_
    refine guarded_bind (guarded_advanceCommit (guarded_drainReady hv fuel true)) fun _ =>
      guarded_bind guarded_read fun _ => guarded_ite (guarded_ret _) ?_
    exact guarded_bind (guarded_advanceCommit (guarded_commitNext hv true)) fun _ => guarded_ret _
  refine guarded_bind (ExecutionCoordinator.guarded_incConsumed _) fun _ =>
    guarded_bind (guarded_submit hv _) fun submitted => ?_
  cases submitted with
  | none => exact hlimit
  | some task => exact guarded_bind (guarded_modify _) fun _ => hlimit

omit hv in
/-- Cancelling the pending tasks reaches no sink. -/
theorem guarded_cancelPendingBatchTasks :
    Fenced (cancelPendingBatchTasks : PipelineDelivery α χ Unit) :=
  guarded_bind guarded_read fun _ => guarded_bind (guarded_modify _) fun _ =>
    guarded_bind (guarded_invoke rfl) fun _ => guarded_bind (guarded_cancelFutures _) fun _ =>
      guarded_ite (guarded_ret ()) (guarded_invoke rfl)

/-- Draining the pipeline at the end of the stream is fenced. -/
theorem guarded_drainPending (fuel : ℕ) : Fenced (v.drainPending fuel) := by
  refine guarded_bind (guarded_attempt (guarded_iterate (fun _ => ?_) fuel ())) fun drained => ?_
  · refine guarded_bind guarded_read fun _ => guarded_ite (guarded_ret _) ?_
    refine guarded_bind (guarded_invoke rfl) fun _ => guarded_bind (guarded_invoke rfl) fun _ => ?_
    refine guarded_bind (guarded_advanceCommit (guarded_drainReady hv fuel false)) fun _ =>
      guarded_bind guarded_read fun _ => guarded_ite (guarded_ret _) ?_
    exact guarded_bind (guarded_advanceCommit (guarded_commitNext hv false)) fun _ => guarded_ret _
  · cases drained with
    | ok u => exact guarded_ret ()
    | error exc => exact guarded_bind guarded_cancelPendingBatchTasks fun _ => guarded_raise _

/-- The pipelined lane is fenced, whatever its variant does with a batch. -/
theorem guarded_runPipelined (fuel limit : ℕ) (batches : List (SourceBatch α χ)) :
    Fenced (v.runPipelined fuel limit batches) := by
  refine guarded_bind (guarded_attempt (guarded_forEach (guarded_streamBatch hv fuel limit) _))
    fun streamed => ?_
  cases streamed with
  | ok u => exact guarded_drainPending hv fuel
  | error exc =>
    exact guarded_ite (guarded_bind guarded_cancelPendingBatchTasks fun _ => guarded_raise _)
      (guarded_bind (guarded_drainPending hv fuel) fun _ => guarded_raise _)

end PipelinedVariant

namespace ExecutionCoordinator

variable [DecidableEq α] [DecidableEq χ] {c : ExecutionCoordinator α χ}
  (hfence : c.delivery.runFence = true)

include hfence

/-- The variant for batches of records is fenced. -/
theorem allFenced_listVariant (stage : PipelinedStage) : (c.listVariant stage).AllFenced where
  enter batch := by
    refine guarded_bind (MiddlewareChain.guarded_applyStages _ _) fun _ =>
      guarded_ite (guarded_ret _) ?_
    exact guarded_bind (guarded_invoke rfl) fun _ => guarded_ret _
  collect task := guarded_catchException
    (guarded_bind (guarded_invoke rfl) fun _ => guarded_bind (guarded_ofExcept _) fun _ =>
      MiddlewareChain.guarded_applyStages _ _) fun _ => guarded_ret _
  finalize := guarded_finalizeListBatchResult hfence

omit [DecidableEq α] in
/-- The variant for Arrow batches is fenced. -/
theorem allFenced_arrowVariant (stage : PipelinedStage) : (c.arrowVariant stage).AllFenced where
  enter batch := by
    refine guarded_bind (MiddlewareChain.guarded_applyArrowStages _ _) fun _ =>
      guarded_ite (guarded_ret _) ?_
    exact guarded_bind (guarded_invoke rfl) fun _ => guarded_ret _
  collect task := guarded_catchException
    (guarded_bind (guarded_invoke rfl) fun _ => MiddlewareChain.guarded_applyArrowStages _ _)
    fun _ => guarded_ret _
  finalize := guarded_finalizeArrowBatchResult hfence

/-- The batch lane is fenced, sequential or pipelined. -/
theorem guarded_runBatchLane (fuel : ℕ) (batches : List (SourceBatch α χ)) :
    Fenced (c.runBatchLane fuel batches) := by
  unfold runBatchLane
  cases c.chain.firstPipelinedBatchStage with
  | none => exact guarded_runSequentialBatches hfence batches
  | some stage =>
    have hflush : Fenced (hotFlush : PipelineDelivery α χ Unit) := guarded_modify _
    refine guarded_ite (guarded_ite (guarded_bind (guarded_raise _) fun _ => hflush) ?_) ?_
    · exact guarded_bind (PipelinedVariant.guarded_runPipelined
        (allFenced_arrowVariant hfence stage) _ _ _) fun _ => hflush
    · exact guarded_bind (PipelinedVariant.guarded_runPipelined
        (allFenced_listVariant hfence stage) _ _ _) fun _ => hflush

/-! ## The buffered lane -/

omit hfence [DecidableEq χ] in
/-- A record enters the buffered stage without a side effect. -/
theorem guarded_enterRecord {v : BufferedVariant α χ} (hv : ∀ record value, Fenced (v.submit record value))
    (splitIndex : ℕ) (record : SourceRecord α χ) : Fenced (c.enterRecord v splitIndex record) := by
  refine guarded_bind (MiddlewareChain.guarded_processStages _ _ _) fun outcome => ?_
  cases outcome.1 with
  | none => exact guarded_ret _
  | some value => exact guarded_bind (hv _ _) fun _ => guarded_ret _

omit hfence [DecidableEq α] [DecidableEq χ] in
/-- The abort of pending work around a commit is fenced if the commit is. -/
theorem guarded_committing (streaming : Bool) {p : BufferedDelivery α χ Unit} (hp : Fenced p) :
    Fenced (committing streaming p) := by
  refine guarded_bind (guarded_attempt hp) fun committed => ?_
  cases committed with
  | ok u => exact guarded_ret ()
  | error exc => exact guarded_bind guarded_read fun _ => guarded_bind (guarded_note _) fun _ =>
      guarded_raise _

/-- Dispatching a record of the buffered lane is fenced. -/
theorem guarded_dispatchRecord (fuel : ℕ) (record : SourceRecord α χ)
    (outcome : MiddlewareChain.RecordOutcome α) : Fenced (c.dispatchRecord fuel record outcome) :=
  guarded_bind (guarded_note _) fun _ =>
    DeliveryEngine.guarded_dispatchProcessedResult hfence _ _ _ _ _ _ _

/-- Both programs of a variant of the buffered lane are fenced. -/
structure AllFenced (v : BufferedVariant α χ) : Prop where
  submit : ∀ record value, Fenced (v.submit record value)
  collect : ∀ entry, Fenced (v.collect entry)

section Buffered

variable {v : BufferedVariant α χ} (hv : AllFenced v)

include hv

/-- Taking the first pending record and resolving it is fenced. -/
theorem guarded_takeBufferedRecord (fuel : ℕ) (streaming : Bool) (entry : PendingRecord α χ) :
    Fenced (c.takeBufferedRecord v fuel streaming entry) :=
  guarded_bind (guarded_modify _) fun _ => guarded_committing _
    (guarded_bind (hv.collect _) fun _ => guarded_dispatchRecord hfence _ _ _)

/-- Draining the records that are ready is fenced. -/
theorem guarded_drainReadyRecords (fuel : ℕ) (streaming : Bool) :
    Fenced (c.drainReadyRecords v fuel streaming) := by
  refine guarded_iterate (fun _ => guarded_bind guarded_read fun s => ?_) fuel ()
  cases s.lane.pendingRecords with
  | nil => exact guarded_ret _
  | cons entry entries =>
    have htake : ∀ done : Bool, Fenced
        (if done then (do c.takeBufferedRecord v fuel streaming entry; pure (.inl ()))
          else pure (.inr ()) : BufferedDelivery α χ (Unit ⊕ Unit)) := fun _ =>
      guarded_ite (guarded_bind (guarded_takeBufferedRecord hfence hv _ _ _) fun _ => guarded_ret _)
        (guarded_ret _)
    dsimp only
    cases entry.future with
    | none => exact htake true
    | some future => exact guarded_bind (guarded_perform rfl) htake

/-- Committing the next record is fenced. -/
theorem guarded_commitNextRecord (fuel : ℕ) (streaming : Bool) :
    Fenced (c.commitNextRecord v fuel streaming) := by
  refine guarded_bind guarded_read fun s => ?_
  cases s.lane.pendingRecords with
  | nil => exact guarded_ret _
  | cons entry entries => exact guarded_takeBufferedRecord hfence hv _ _ _

/-- What the buffered lane does with one record of the stream is fenced. -/
theorem guarded_streamRecord (fuel splitIndex : ℕ) (record : SourceRecord α χ) :
    Fenced (c.streamRecord v fuel splitIndex record) := by
  have hobserve : ∀ n, Fenced (c.observeLimit n : BufferedDelivery α χ Unit) := fun _ =>
    guarded_ite (guarded_bind (guarded_perform rfl) fun _ => guarded_modify _) (guarded_ret ())
  have hlimit : Fenced (iterate (c.limitRecordsRound v fuel) fuel ()) := by
    refine guarded_iterate (fun _ => guarded_bind guarded_read fun _ => ?_) fuel ()
    refine guarded_ite (guarded_ret _) (guarded_bind (hobserve _) fun _ => ?_)
    refine guarded_bind (guarded_drainReadyRecords hfence hv fuel true) fun _ =>
      guarded_bind guarded_read fun _ => guarded_ite (guarded_ret _) ?_
    exact guarded_bind (guarded_commitNextRecord hfence hv fuel true) fun _ => guarded_ret _
  refine guarded_bind (guarded_consume 1) fun _ => guarded_bind (guarded_modify _) fun _ =>
    guarded_bind (guarded_enterRecord hv.submit _ _) fun entered => ?_
  cases entered with
  | inl outcome =>
    exact guarded_bind guarded_read fun _ => guarded_bind (guarded_note _) fun _ =>
      guarded_committing _ (guarded_dispatchRecord hfence _ _ _)
  | inr entry => exact guarded_bind (guarded_modify _) fun _ => hlimit

omit hfence hv [DecidableEq α] [DecidableEq χ] in
/-- Cancelling the pending work reaches no sink. -/
theorem guarded_abortPendingWork : Fenced (abortPendingWork : BufferedDelivery α χ Unit) :=
  guarded_bind (guarded_modify _) fun _ =>
    guarded_bind (guarded_attempt DeliveryEngine.guarded_closePendingWriteOwner) fun _ =>
      guarded_bind guarded_read fun _ => guarded_bind (guarded_modify _) fun _ =>
        guarded_bind (guarded_cancelFutures _) fun _ =>
          guarded_ite (guarded_ret ()) (guarded_invoke rfl)

/-- Draining the pending records at the end of the stream is fenced. -/
theorem guarded_drainPendingRecords (fuel : ℕ) : Fenced (c.drainPendingRecords v fuel) := by
  refine guarded_bind (guarded_attempt (guarded_bind (guarded_invoke rfl) fun _ => guarded_bind
    (guarded_iterate (fun _ => ?_) fuel ()) fun _ => guarded_committing _
      (DeliveryEngine.guarded_flushPendingWrites hfence))) fun drained => ?_
  · refine guarded_bind guarded_read fun _ => guarded_ite (guarded_ret _) ?_
    refine guarded_bind (guarded_invoke rfl) fun _ => guarded_bind (guarded_invoke rfl) fun _ => ?_
    refine guarded_bind (guarded_drainReadyRecords hfence hv fuel false) fun _ =>
      guarded_bind guarded_read fun _ => guarded_ite (guarded_ret _) ?_
    exact guarded_bind (guarded_commitNextRecord hfence hv fuel false) fun _ => guarded_ret _
  · cases drained with
    | ok u => exact guarded_ret ()
    | error exc => exact guarded_bind guarded_abortPendingWork fun _ => guarded_raise _

/-- The buffered lane is fenced, whatever its variant is. -/
theorem guarded_runBuffered (fuel splitIndex : ℕ) (records : List (SourceRecord α χ)) :
    Fenced (c.runBuffered v fuel splitIndex records) := by
  refine guarded_bind (guarded_attempt
    (guarded_forEach (guarded_streamRecord hfence hv fuel splitIndex) _)) fun streamed =>
      guarded_bind (guarded_modify _) fun _ => ?_
  cases streamed with
  | ok u => exact guarded_drainPendingRecords hfence hv fuel
  | error exc =>
    exact guarded_ite (guarded_bind guarded_abortPendingWork fun _ => guarded_raise _)
      (guarded_bind (guarded_drainPendingRecords hfence hv fuel) fun _ => guarded_raise _)

end Buffered

omit hfence [DecidableEq χ] in
/-- The variant with a single buffered stage is fenced. -/
theorem allFenced_singleVariant (stage : BufferedStageSpec) : AllFenced (c.singleVariant stage) where
  submit record value := by
    refine guarded_bind (guarded_attempt (guarded_invoke rfl)) fun submitted => ?_
    cases submitted with
    | ok future => exact guarded_ret _
    | error exc => exact guarded_ite (guarded_ret _) (guarded_raise _)
  collect entry := by
    change Fenced (c.collectSingleBufferedRecord stage entry)
    unfold collectSingleBufferedRecord
    cases entry.future with
    | none => exact guarded_ret _
    | some future =>
      refine guarded_bind (guarded_attempt (guarded_invoke rfl)) fun awaited => ?_
      rcases awaited with exc | ⟨_ | value⟩ | ⟨result, failure⟩
      · exact guarded_ite (guarded_ret _) (guarded_raise _)
      · exact guarded_ret _
      · exact guarded_ite (MiddlewareChain.guarded_processStages _ _ _) (guarded_ret _)
      · exact guarded_ret _

omit hfence [DecidableEq χ] in
/-- The variant with several buffered stages is fenced. -/
theorem allFenced_multiVariant (first : BufferedStageSpec) : AllFenced (c.multiVariant first) where
  submit record value := guarded_bind (guarded_perform rfl) fun _ => guarded_ret _
  collect entry := by
    change Fenced (c.collectBufferedRecord first entry)
    unfold collectBufferedRecord
    cases entry.future with
    | none => exact guarded_ret _
    | some future =>
      refine guarded_bind (guarded_attempt (guarded_invoke rfl)) fun awaited => ?_
      rcases awaited with exc | ⟨_ | value⟩ | ⟨result, failure⟩
      · exact guarded_ite (guarded_ret _) (guarded_raise _)
      · exact guarded_ret _
      · exact MiddlewareChain.guarded_processStages _ _ _
      · exact guarded_ret _

/-- The buffered lane is fenced, with any number of stages. -/
theorem guarded_runBufferedLane (fuel : ℕ) (stages : List BufferedStageSpec) (currentLimit : ℕ)
    (records : List (SourceRecord α χ)) :
    Fenced (c.runBufferedLane fuel stages currentLimit records) := by
  cases stages with
  | nil => exact guarded_raise _
  | cons first rest =>
    refine guarded_bind (guarded_modify _) fun _ => guarded_ite ?_ ?_
    · exact guarded_runBuffered hfence (allFenced_singleVariant first) _ _ _
    · exact guarded_runBuffered hfence (allFenced_multiVariant first) _ _ _

/-! ## The linear lane -/

/-- The linear lane is fenced. -/
theorem guarded_runLinearLane (fuel : ℕ) (records : List (SourceRecord α χ)) :
    Fenced (c.runLinearLane fuel records) := by
  have hcatch : ∀ p : LinearDelivery α χ Unit, Fenced p → Fenced (catchSourceError p) := fun _ hp =>
    guarded_catchException (guarded_bind hp fun _ => guarded_ret _) fun _ => guarded_ret _
  have hraise : ∀ e, Fenced (raiseSourceError e : LinearDelivery α χ Unit) := fun e => by
    cases e with
    | none => exact guarded_ret ()
    | some exc => exact guarded_raise _
  have htake : ∀ record, Fenced (takeRecord record : LinearDelivery α χ Unit) := fun _ =>
    guarded_bind (guarded_note _) fun _ => guarded_bind (guarded_consume 1) fun _ => guarded_modify _
  have hempty : Fenced (c.emptyBuffer fuel) := by
    refine guarded_bind (guarded_bind guarded_read fun _ => guarded_bind (guarded_modify _) fun _ =>
      guarded_ret _) fun batch => guarded_ite (DeliveryEngine.guarded_flushBatchDirect hfence _) ?_
    induction batch with
    | nil => exact guarded_ret ()
    | cons item items ih =>
      exact guarded_bind (DeliveryEngine.guarded_queueProcessedRecord hfence _ _ _ _ _ _ _)
        fun _ => ih
  refine guarded_ite ?_ ?_
  · refine guarded_bind (hcatch _ (guarded_forEach (fun record => ?_) _)) fun _ =>
      guarded_bind (guarded_bind guarded_read fun _ => guarded_ite (guarded_ret ())
        (guarded_bind hempty fun _ =>
          guarded_ite (guarded_ret ()) (DeliveryEngine.guarded_flushPendingWrites hfence))) fun _ =>
        guarded_bind (guarded_modify _) fun _ => hraise _
    refine guarded_bind (htake record) fun _ =>
      guarded_bind (MiddlewareChain.guarded_processStages _ _ _) fun outcome => ?_
    cases outcome.1 with
    | none => exact DeliveryEngine.guarded_dropRecord hfence _ _ _ _
    | some value =>
      exact guarded_bind (guarded_note _) fun _ => guarded_bind (guarded_bind (guarded_modify _)
        fun _ => guarded_bind guarded_read fun _ => guarded_ret _) fun _ =>
          guarded_ite hempty (guarded_ret ())
  · refine guarded_bind (hcatch _ (guarded_forEach (fun record => ?_) _)) fun _ =>
      guarded_bind (guarded_modify _) fun _ =>
        guarded_bind (DeliveryEngine.guarded_flushPendingWrites hfence) fun _ => hraise _
    have hdeliver : ∀ outcome, Fenced (c.deliverRecord fuel record outcome) := fun _ =>
      guarded_ite (DeliveryEngine.guarded_queueProcessedRecord hfence _ _ _ _ _ _ _)
        (DeliveryEngine.guarded_writeProcessedRecord hfence _ _ _ _ _)
    exact guarded_bind (htake record) fun _ =>
      guarded_bind (MiddlewareChain.guarded_processStages _ _ _) fun _ =>
        guarded_ite (guarded_bind (guarded_note _) fun _ => hdeliver _)
          (hdeliver _)

end ExecutionCoordinator

/-! ## Runs of a lane -/

/-- A lane with what the source gives it. -/
inductive LaneInput (α χ : Type) : Type where
  | linear (records : List (SourceRecord α χ))
  | batch (batches : List (SourceBatch α χ))
  | buffered (stages : List BufferedStageSpec) (currentLimit : ℕ) (records : List (SourceRecord α χ))

/-- The objects of the lane. -/
def LaneInput.Objects : LaneInput α χ → Type
  | .linear _ => List (PendingWrite α χ)
  | .batch _ => PipelineState α χ
  | .buffered _ _ _ => BufferedState α χ

namespace ExecutionCoordinator

variable [DecidableEq α] [DecidableEq χ] (c : ExecutionCoordinator α χ)

/-- `run` of the strategy of the lane. -/
def runLane (fuel : ℕ) : (input : LaneInput α χ) → Delivery input.Objects α χ Unit
  | .linear records => c.runLinearLane fuel records
  | .batch batches => c.runBatchLane fuel batches
  | .buffered stages currentLimit records => c.runBufferedLane fuel stages currentLimit records

variable {c}

/-- Every lane with a bound fence validates it before each side effect. -/
theorem guarded_runLane (hfence : c.delivery.runFence = true) (fuel : ℕ) (input : LaneInput α χ) :
    Fenced (c.runLane fuel input) := by
  cases input with
  | linear records => exact guarded_runLinearLane hfence fuel records
  | batch batches => exact guarded_runBatchLane hfence fuel batches
  | buffered stages currentLimit records =>
    exact guarded_runBufferedLane hfence fuel stages currentLimit records

end ExecutionCoordinator

/-- A validation of the fence that returned `True`. -/
def fenceConfirmed : Event (Call α χ) Call.Ret (Mark α χ) := .called (.await .validateFence) (.ok true)

/-- Only a validation that returned `True` opens the gate. -/
theorem isOpening_iff {e : Event (Call α χ) Call.Ret (Mark α χ)} :
    (fencing α χ).isOpening e = true ↔ e = fenceConfirmed := by
  refine ⟨fun he => ?_, fun he => by rw [he]; rfl⟩
  cases e with
  | mark m => exact absurd he (by simp [Discipline.isOpening])
  | called o r =>
    cases o with
    | await a =>
      cases a with
      | validateFence =>
        cases r with
        | ok active =>
          cases active with
          | false => exact absurd he (by simp [Discipline.isOpening, fencing, Call.confirmsFence])
          | true => rfl
        | error exc => exact absurd he (by simp [Discipline.isOpening, fencing, Call.confirmsFence])
      | _ => exact absurd he (by simp [Discipline.isOpening, fencing, Call.confirmsFence])
    | _ => exact absurd he (by simp [Discipline.isOpening, fencing, Call.confirmsFence])

/-- How many sinks and stores the events reach. -/
def sideEffects (t : RunTrace α χ) : ℕ := t.countP (fencing α χ).isGuarded

/-- Without a successful validation an open gate lets one side effect through, and a closed one none. -/
theorem sideEffects_le {gate : Bool} {t : RunTrace α χ} (ht : (fencing α χ).Respects gate t)
    (hlost : fenceConfirmed ∉ t) : sideEffects t ≤ gate.toNat :=
  ht.countP_le fencing_keeps fun e he => by
    cases hopen : (fencing α χ).isOpening e with
    | false => rfl
    | true => exact absurd (isOpening_iff.mp hopen ▸ he) hlost

/-- Once no validation succeeds any more, a fenced run reaches at most one sink or store, and none
after another validation. -/
theorem sideEffects_of_lost {before after : RunTrace α χ}
    (ht : (fencing α χ).Respects false (before ++ after)) (hlost : fenceConfirmed ∉ after) :
    sideEffects after ≤ 1 ∧
      ∀ earlier r later, after = earlier ++ .called (.await .validateFence) r :: later →
        sideEffects later = 0 := by
  have hrest := (Discipline.respects_append.mp ht).2
  refine ⟨(sideEffects_le hrest hlost).trans (Bool.toNat_le _), fun earlier r later hafter => ?_⟩
  subst hafter
  have hclosed : (Call.await .validateFence : Call α χ).confirmsFence r = false := by
    refine eq_false_of_ne_true fun hopens => hlost ?_
    have hevent : .called (.await .validateFence) r = (fenceConfirmed : Event _ _ (Mark α χ)) :=
      isOpening_iff.mp hopens
    simp [hevent]
  have hlater := (Discipline.respects_append.mp hrest).2.2
  simp only [Discipline.after, fencing, hclosed, Call.isCurrentCheckpoint, Bool.and_false,
    Bool.or_false] at hlater
  exact Nat.le_zero.mp (sideEffects_le hlater fun hmem => hlost (by simp [hmem]))

/-- A side effect of a fenced run comes after a validation that confirmed the fence, with at most calls of
`current_checkpoint()` in between. -/
theorem confirmed_before {t before after : RunTrace α χ} (ht : (fencing α χ).Respects false t)
    {o : Call α χ} {r : o.Ret} (hsplit : t = before ++ .called o r :: after)
    (ho : o.isSideEffect = true) :
    ∃ earlier since, before = earlier ++ fenceConfirmed :: since ∧
      ∀ o' r', .called o' r' ∈ since → o' = .await .currentCheckpoint := by
  obtain ⟨earlier, e, since, hbefore, hopen, hkeep⟩ := ht.opened_before hsplit ho
  rw [isOpening_iff] at hopen
  subst hopen
  refine ⟨earlier, since, hbefore, fun o' r' hmem => ?_⟩
  have hkept : o'.isCurrentCheckpoint = true := hkeep _ hmem
  cases o' with
  | await a => cases a <;> first | rfl | exact absurd hkept (by simp [Call.isCurrentCheckpoint])
  | _ => exact absurd hkept (by simp [Call.isCurrentCheckpoint])

/-- Once no validation of a task succeeds any more, it reaches at most one sink or store, and none after
another validation. -/
theorem sideEffects_eventsOf_of_lost {turn : Turn}
    {before after : List (Turn × Event (Call α χ) Call.Ret (Mark α χ))}
    (ht : (fencing α χ).Respects false (System.eventsOf turn (before ++ after)))
    (hlost : (turn, fenceConfirmed) ∉ after) :
    sideEffects (System.eventsOf turn after) ≤ 1 ∧
      ∀ earlier r later, after = earlier ++ (turn, .called (.await .validateFence) r) :: later →
        sideEffects (System.eventsOf turn later) = 0 := by
  rw [System.eventsOf_append] at ht
  obtain ⟨hone, hnone⟩ := sideEffects_of_lost ht (mt System.mem_eventsOf.mp hlost)
  refine ⟨hone, fun earlier r later hafter => hnone (System.eventsOf turn earlier) r _ ?_⟩
  rw [hafter, System.eventsOf_append]
  simp [System.eventsOf]

section Results

variable [DecidableEq α] [DecidableEq χ] {c : ExecutionCoordinator α χ}

/-- A lane with a bound fence beside its pending-write owner: along every schedule each of the two tasks
passes its own gate. -/
theorem respects_withOwner (hfence : c.delivery.runFence = true) (fuel : ℕ) (input : LaneInput α χ)
    (h : Environment α χ) (w : RunWorld input.Objects α χ) (turns : List Turn) (turn : Turn) :
    (fencing α χ).Respects false (System.eventsOf turn
      ((c.delivery.withOwner fuel (c.runLane fuel input)).log h
        ((c.delivery.withOwner fuel (c.runLane fuel input)).start w) turns)) :=
  System.respects_log_start (ExecutionCoordinator.guarded_runLane hfence fuel input)
    (DeliveryEngine.guarded_runPendingWriteOwner hfence fuel) w turns turn

/-- In a run of any lane with a bound fence, along every schedule of the lane and its pending-write owner,
every write, every dead-letter write and every checkpoint save comes right after a validation that
confirmed the fence to the same task: this task calls at most `current_checkpoint()` of the source in
between. -/
theorem sideEffect_after_validation (hfence : c.delivery.runFence = true) (fuel : ℕ)
    (input : LaneInput α χ) (h : Environment α χ) (w : RunWorld input.Objects α χ) (turns : List Turn)
    {before after : List (Turn × Event (Call α χ) Call.Ret (Mark α χ))} {turn : Turn} {o : Call α χ}
    {r : o.Ret}
    (hlog : (c.delivery.withOwner fuel (c.runLane fuel input)).log h
      ((c.delivery.withOwner fuel (c.runLane fuel input)).start w) turns =
        before ++ (turn, .called o r) :: after)
    (ho : o.isSideEffect = true) :
    ∃ earlier since, before = earlier ++ (turn, fenceConfirmed) :: since ∧
      ∀ o' r', (turn, .called o' r') ∈ since → o' = .await .currentCheckpoint := by
  have hrespects := respects_withOwner hfence fuel input h w turns turn
  rw [hlog, System.eventsOf_append] at hrespects
  have hsplit : System.eventsOf turn before ++ System.eventsOf turn ((turn, .called o r) :: after) =
      System.eventsOf turn before ++ .called o r :: System.eventsOf turn after := by
    simp [System.eventsOf]
  obtain ⟨mine, since, hbefore, hkept⟩ := confirmed_before hrespects hsplit ho
  obtain ⟨earlier, later, hsplit, -, hsince⟩ := System.eventsOf_eq_append_cons hbefore
  refine ⟨earlier, later, hsplit, fun o' r' hmem => hkept o' r' ?_⟩
  rw [← hsince]
  exact System.mem_eventsOf.mpr hmem

/-- A coordinator with a bound fence, an empty chain and a writer of batches of two, which are flushed
after some time. -/
def fencedCoordinator : ExecutionCoordinator ℕ ℕ :=
  { ExecutionCoordinator.standard
      { DeliveryEngine.standard true with runFence := true, batchFlushIntervalMs := some 50 } [] with
    writerBatchSize := 2
    writerBatchSize_pos := by decide }

/-- One record with a checkpoint. -/
def fencedRecord : SourceRecord ℕ ℕ := ⟨1, some 1, []⟩

/-- The time of a flush is reached at once, and the fence is confirmed only once. -/
def confirmedOnce : Environment ℕ ℕ
  | t, .await .validateFence => .ok (!t.any (fencing ℕ ℕ).isOpening)
  | _, .await (.notifyWait _) => .ok true
  | t, o => undisturbed t o

/-- The record in the linear lane, beside the pending-write owner. -/
def fencedSystem : System (Call ℕ ℕ) Call.Ret (Mark ℕ ℕ)
    (RunState (List (PendingWrite ℕ ℕ)) ℕ ℕ) Exc Unit :=
  fencedCoordinator.delivery.withOwner 5 (fencedCoordinator.runLinearLane 5 [fencedRecord])

/-- The lane queues the record, and the owner writes it. -/
def beforeLoss : List (Turn × Event (Call ℕ ℕ) Call.Ret (Mark ℕ ℕ)) :=
  [(.main, .called (.await .sourceNext) (.ok ())), (.main, .mark (.consumed fencedRecord)),
    (.main, .mark (.accepted fencedRecord)), (.helper, .called (.await (.notifyWait true)) (.ok true)),
    (.helper, fenceConfirmed)]

/-- What comes after the owner has found the fence confirmed: it writes, finds the fence lost, and the
lane goes on. -/
def afterConfirmation : List (Turn × Event (Call ℕ ℕ) Call.Ret (Mark ℕ ℕ)) :=
  [(.helper, .called (.await (.writeBatch [1])) (.ok [⟨true, []⟩])),
    (.helper, .mark (.settled (some 1) .written)),
    (.helper, .called (.await .validateFence) (.ok false)),
    (.main, .called (.await .sourceNext) (.ok ()))]

/-- The events of a schedule in which the owner begins while the lane waits for its source. -/
theorem log_fencedSystem :
    fencedSystem.log confirmedOnce (fencedSystem.start ⟨RunState.initial [] none, []⟩)
      [.main, .helper, .helper, .helper, .helper, .helper, .main] =
        beforeLoss ++ afterConfirmation := rfl

/-- The write of the owner comes after its validation. -/
theorem sideEffect_after_validation_write :
    ∃ earlier since, beforeLoss = earlier ++ (.helper, fenceConfirmed) :: since ∧
      ∀ (o' : Call ℕ ℕ) r', (Turn.helper, .called o' r') ∈ since → o' = .await .currentCheckpoint :=
  sideEffect_after_validation (c := fencedCoordinator) rfl 5 (.linear [fencedRecord]) confirmedOnce _ _
    log_fencedSystem rfl

end Results

end AgoraEtl
