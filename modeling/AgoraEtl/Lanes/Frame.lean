import AgoraEtl.Delivery.Frame
import AgoraEtl.Lanes.Batch

/-!
# What the chain and the lanes leave alone

Running records through the middlewares leaves no marks at all, and finalizing a batch leaves only
the marks of the delivery engine after its own.  Like the delivery engine, both touch neither the
objects of the lane nor the queue of pending writes.
-/

namespace AgoraEtl

open Effect Program

variable {ℓ α χ β : Type} {M : Mark α χ → Prop}

/-! ## The middleware chain -/

/-- A middleware delivers nothing. -/
theorem within_processBatch (mw : Middleware) (index : ℕ) (records : List (Option α)) :
    (mw.processBatch index records :
      Delivery ℓ α χ (List (Option α))).Within (chainFrame ℓ) :=
  within_bind (within_chainInvoke rfl) fun _ => within_ite (within_ofExcept _) (within_ret _)

/-- A predicate delivers nothing. -/
theorem within_callPredicate (index : ℕ) (record : α) :
    (Middleware.callPredicate index record :
      Delivery ℓ α χ (Option α)).Within (chainFrame ℓ) :=
  within_bind (within_chainInvoke rfl) fun _ => within_ret _

/-- What is done with a result delivers nothing. -/
theorem within_map {p : Delivery ℓ α χ β} {γ : Type} (f : β → γ)
    (hp : p.Within (chainFrame ℓ)) : (f <$> p).Within (chainFrame ℓ) :=
  within_bind hp fun _ => within_ret _

namespace MiddlewareChain

/-- Applying a batch middleware delivers nothing. -/
theorem within_applyBatchMiddleware (mw : Middleware) (index : ℕ) (current : List (Option α)) :
    (applyBatchMiddleware mw index current :
      Delivery ℓ α χ (StageResult α)).Within (chainFrame ℓ) := by
  refine within_bind (within_attempt (within_processBatch _ _ _)) fun processed => ?_
  cases processed with
  | error exc => exact within_ite (within_ret _) (within_raise _)
  | ok results => exact within_ite (within_raise _) (within_ret _)

/-- The stages of an Arrow chain deliver nothing. -/
theorem within_applyArrowStages (stages : List (Middleware × ℕ)) (rows : List α) :
    (applyArrowStages stages rows :
      Delivery ℓ α χ (ArrowProcessResult α)).Within (chainFrame ℓ) := by
  induction stages generalizing rows with
  | nil => exact within_ret _
  | cons stage stages ih =>
    refine within_ite (within_bind (within_attempt (within_chainInvoke rfl))
      fun processed => ?_) (ih rows)
    cases processed with
    | error exc => exact within_ite (within_ret _) (within_raise _)
    | ok rows => exact within_ite (within_ret _) (ih rows)

variable [DecidableEq α]

/-- A call of `process` delivers nothing. -/
theorem within_callProcess (index : ℕ) (record : α) :
    (Middleware.callProcess index record :
      Delivery ℓ α χ (Option α)).Within (chainFrame ℓ) :=
  within_bind (within_perform rfl) fun _ =>
    within_bind (within_modify fun _ => ⟨rfl, rfl⟩) fun _ => within_ofExcept _

/-- Processing a record in one middleware delivers nothing. -/
theorem within_process (mw : Middleware) (index : ℕ) (record : α) :
    (mw.process index record : Delivery ℓ α χ (Option α)).Within (chainFrame ℓ) := by
  unfold Middleware.process
  cases mw.kind with
  | filter isAsync => exact within_callPredicate _ _
  | batch => exact within_bind (within_chainInvoke rfl) fun _ => within_ret _
  | processBatch => exact within_raise _
  | arrowBatch => exact within_ret _
  | arrowProcessBatch => exact within_ret _
  | map isAsync => exact within_callProcess _ _
  | perRecord => exact within_callProcess _ _

/-- Handing the hooks of a record on to another one delivers nothing. -/
theorem within_transferSuccessHooks (sourceRecord targetRecord : α) :
    (transferSuccessHooks sourceRecord targetRecord :
      Delivery ℓ α χ Unit).Within (chainFrame ℓ) :=
  within_ite (within_ret ()) (within_modify fun _ => ⟨rfl, rfl⟩)

/-- Processing a record in all of its stages delivers nothing. -/
theorem within_processStages (record current : α) (stages : List (Middleware × ℕ)) :
    (processStages record current stages :
      Delivery ℓ α χ (RecordOutcome α)).Within (chainFrame ℓ) := by
  induction stages generalizing current with
  | nil => exact within_ret _
  | cons stage stages ih =>
    refine within_bind (within_attempt (within_process _ _ _)) fun processed => ?_
    match processed with
    | .error exc =>
      exact within_ite (within_bind (within_chainInvoke rfl) fun _ => within_ret _) (within_raise _)
    | .ok none => exact within_ret _
    | .ok (some value) =>
      exact within_bind (within_transferSuccessHooks _ _) fun _ => ih value

/-- Applying a stage record by record delivers nothing. -/
theorem within_applyPerRecord (stage : Middleware × ℕ) (records : List (Option α)) :
    (applyPerRecord stage records :
      Delivery ℓ α χ (List (Option α))).Within (chainFrame ℓ) := by
  induction records with
  | nil => exact within_ret _
  | cons record records ih =>
    cases record with
    | none => exact within_bind ih fun _ => within_ret _
    | some record =>
      exact within_bind (within_processStages _ _ _) fun _ => within_bind ih fun _ => within_ret _

omit [DecidableEq α] in
/-- A loop of synchronous calls delivers nothing if the calls do not. -/
theorem within_applySyncLoop (index : ℕ) {call : α → Delivery ℓ α χ (Option α)}
    (hcall : ∀ record, (call record).Within (chainFrame ℓ)) (records : List (Option α)) :
    (applySyncLoop index call records).Within (chainFrame ℓ) := by
  induction records with
  | nil => exact within_ret _
  | cons record records ih =>
    cases record with
    | none => exact within_bind ih fun _ => within_ret _
    | some record =>
      refine within_bind (within_catchException (hcall record) fun exc => ?_) fun _ =>
        within_bind ih fun _ => within_ret _
      exact within_bind (within_chainInvoke rfl) fun _ => within_ret _

/-- Applying a stage to a batch delivers nothing. -/
theorem within_applyInBatch (mw : Middleware) (index : ℕ) (current : List (Option α)) :
    (applyInBatch mw index current :
      Delivery ℓ α χ (StageResult α)).Within (chainFrame ℓ) := by
  have hmap : (applySyncMapBatch index current :
      Delivery ℓ α χ (List (Option α))).Within (chainFrame ℓ) :=
    within_ite (within_ret _) (within_applySyncLoop _ (within_callProcess _) _)
  have hfilter : (applySyncFilterBatch index current :
      Delivery ℓ α χ (List (Option α))).Within (chainFrame ℓ) :=
    within_ite (within_ret _) (within_applySyncLoop _ (within_callPredicate _) _)
  unfold applyInBatch
  match mw.kind with
  | .map false => exact within_map _ hmap
  | .filter false => exact within_map _ hfilter
  | .map true => exact within_map _ (within_applyPerRecord _ _)
  | .filter true => exact within_map _ (within_applyPerRecord _ _)
  | .perRecord => exact within_map _ (within_applyPerRecord _ _)
  | .batch => exact within_applyBatchMiddleware _ _ _
  | .processBatch => exact within_applyBatchMiddleware _ _ _
  | .arrowBatch => exact within_ret _
  | .arrowProcessBatch => exact within_ret _

/-- Applying all stages to a batch delivers nothing. -/
theorem within_applyStages (stages : List (Middleware × ℕ)) (current : List (Option α)) :
    (applyStages stages current :
      Delivery ℓ α χ (BatchProcessResult α)).Within (chainFrame ℓ) := by
  induction stages generalizing current with
  | nil => exact within_ret _
  | cons stage stages ih =>
    refine within_bind (within_applyInBatch _ _ _) fun result => ?_
    cases result with
    | inl failure => exact within_ret _
    | inr next => exact ih next

/-- `process_batch` of the chain delivers nothing. -/
theorem within_chain_processBatch (chain : MiddlewareChain) (records : List α) :
    (chain.processBatch records :
      Delivery ℓ α χ (BatchProcessResult α)).Within (chainFrame ℓ) :=
  within_ite (within_ret _) (within_applyStages _ _)

end MiddlewareChain

/-! ## The hot-path counters -/

/-- Counting a batch as consumed stays within the frame of the engine. -/
theorem within_incConsumed (n : ℕ) :
    (incConsumed n : Delivery ℓ α χ Bool).Within (deliveryFrame ℓ M) :=
  within_bind (within_modify fun _ => rfl) fun _ => within_bind within_read fun _ => within_ret _

/-- Counting consumed records changes neither the lane nor the trace. -/
theorem safe_incConsumed {C : Contract (Call α χ) Call.Ret (Mark α χ) (RunState ℓ α χ)} {n : ℕ}
    {Q : Bool → RunWorld ℓ α χ → RunWorld ℓ α χ → Prop}
    {E : Exc → RunWorld ℓ α χ → RunWorld ℓ α χ → Prop} {w₀ w : RunWorld ℓ α χ}
    (h : ∀ due w', w'.state.lane = w.state.lane → w'.trace = w.trace → Q due w₀ w') :
    (incConsumed n).Safe C Q E w₀ w := by
  unfold incConsumed
  simp only [safe_bind, safe_modify, safe_read, pure_eq_ret, safe_ret]
  exact h _ _ rfl rfl

/-- Committing the hot-path counters stays within the frame of the engine. -/
theorem within_hotFlush : (hotFlush : Delivery ℓ α χ Unit).Within (deliveryFrame ℓ M) :=
  within_modify fun _ => rfl

/-- Counting consumed records stays within the frame of the engine. -/
theorem within_consume (n : ℕ) : (consume n : Delivery ℓ α χ Unit).Within (deliveryFrame ℓ M) :=
  within_bind (within_incConsumed n) fun _ => within_ite within_hotFlush (within_ret ())

/-! ## Streams -/

/-- Running a body over a stream keeps an invariant of the elements done so far. -/
theorem safe_forEach {C : Contract (Call α χ) Call.Ret (Mark α χ) (RunState ℓ α χ)} {ρ : Type}
    {body : ρ → Delivery ℓ α χ Unit} {elements : List ρ}
    {I : List ρ → RunWorld ℓ α χ → RunWorld ℓ α χ → Prop}
    {E : Exc → RunWorld ℓ α χ → RunWorld ℓ α χ → Prop}
    (hnext : ∀ done w₀ w, I done w₀ w →
      (invoke .sourceNext : Delivery ℓ α χ Unit).Safe C (fun _ => I done) E w₀ w)
    (hbody : ∀ done element rest w₀ w, elements = done ++ element :: rest → I done w₀ w →
      (body element).Safe C (fun _ => I (done ++ [element])) E w₀ w)
    {w₀ w : RunWorld ℓ α χ} (hI : I [] w₀ w) :
    (forEach body elements).Safe C (fun _ => I elements) E w₀ w := by
  suffices h : ∀ rest done w₀ w, elements = done ++ rest → I done w₀ w →
      (forEach body rest).Safe C (fun _ => I elements) E w₀ w from h elements [] w₀ w rfl hI
  intro rest
  induction rest with
  | nil =>
    intro done w₀ w hdone hI
    rw [List.append_nil] at hdone
    rw [hdone]
    exact hnext done w₀ w hI
  | cons element rest ih =>
    intro done w₀ w hdone hI
    unfold forEach
    rw [safe_bind]
    refine (hnext done w₀ w hI).mono (fun _ w₀ w hI => ?_) fun _ _ _ he => he
    rw [safe_bind]
    refine (hbody done element rest w₀ w hdone hI).mono (fun _ w₀ w hI => ?_) fun _ _ _ he => he
    exact ih (done ++ [element]) w₀ w (by rw [hdone, List.append_assoc]; rfl) hI

/-! ## Finalizing batches -/

namespace ExecutionCoordinator

variable (c : ExecutionCoordinator α χ)

/-- Writing the rows of an Arrow batch stays within the frame of the engine. -/
theorem within_writeArrowRows (rows : List α) :
    (c.writeArrowRows rows : Delivery ℓ α χ Unit).Within (deliveryFrame ℓ M) := by
  have hcount : (do incWritten rows.length; consume 0 : Delivery ℓ α χ Unit).Within
      (deliveryFrame ℓ M) :=
    within_bind (within_modify fun _ => rfl) fun _ => within_consume 0
  refine within_ite
    (within_bind (within_of_chain (c.delivery.within_writeArrowBatch rows)) fun _ => hcount) ?_
  refine within_bind (within_of_chain (c.delivery.within_writeBatch rows)) fun results => ?_
  split
  · exact within_bind (within_raise _) fun _ => hcount
  · exact within_ite hcount (within_bind (within_raise _) fun _ => hcount)

/-- An Arrow batch whose write raised leaves the marks of writes. -/
theorem within_arrowWriteFailed (hM : AllowsWrites M) (exc : Exc) (checkpoint : Option χ)
    (rawRows rows : List α) :
    (c.arrowWriteFailed exc checkpoint rawRows rows :
      Delivery ℓ α χ Unit).Within (deliveryFrame ℓ M) := by
  refine within_bind (within_of_resolve (within_count _)) fun _ => within_ite ?_ ?_
  · refine within_bind (within_of_resolve (c.delivery.within_routeAll hM.sinkWrite _ _ _ _)) fun routed => ?_
    refine within_ite (within_bind (within_raise _) fun _ => ?_)
      (within_bind (within_ret _) fun _ => ?_)
    all_goals exact within_ite (within_ret ()) (within_raise _)
  · exact within_bind (within_ret _) fun _ => within_ite (within_ret ()) (within_raise _)

section Arrow

variable [DecidableEq χ]

/-- Delivering the rows of an Arrow batch leaves the marks of writes. -/
theorem within_deliverArrowRows (hM : AllowsWrites M) (batch : SourceBatch α χ) (rows : List α) :
    (c.deliverArrowRows batch rows : Delivery ℓ α χ Unit).Within (deliveryFrame ℓ M) :=
  within_bind (within_catchException (c.within_writeArrowRows rows) fun _ =>
    c.within_arrowWriteFailed hM _ _ _ _) fun _ =>
      within_bind (c.delivery.within_saveBatchCheckpoint _ _) fun _ => within_hotFlush

/-- An Arrow batch that failed in a middleware leaves the marks of that failure. -/
theorem within_arrowMiddlewareFailed (hM : AllowsUncaptured M "batch_middleware")
    (batch : SourceBatch α χ) (failure : BatchFailure) :
    (c.arrowMiddlewareFailed batch failure : Delivery ℓ α χ Unit).Within (deliveryFrame ℓ M) := by
  have hrest : ∀ routed : Bool,
      (if (routed || decide (c.delivery.sinkFailurePolicy = .logAndContinue)) = true then
        (do c.delivery.saveBatchCheckpoint batch.checkpoint batch.rows.length; hotFlush)
      else (do raiseRecordDelivery failure.exception; hotFlush) : Delivery ℓ α χ Unit).Within
        (deliveryFrame ℓ M) := fun routed =>
    within_ite (within_bind (c.delivery.within_saveBatchCheckpoint _ _) fun _ => within_hotFlush)
      (within_bind (within_raise _) fun _ => within_hotFlush)
  refine within_bind (within_of_resolve (within_count _)) fun _ => within_ite ?_ ?_
  · exact within_bind (within_of_resolve (c.delivery.within_routeAll hM _ _ _ _)) hrest
  · exact within_bind (within_ret _) hrest

end Arrow

/-! ## Batches in the pipelined stage -/

section Batches

variable [DecidableEq α]

/-- Entering a batch of records into the pipeline delivers nothing. -/
theorem within_enterListBatch (stage : PipelinedStage) (batch : SourceBatch α χ) :
    (c.enterListBatch stage batch).Within (chainFrame _) :=
  within_bind (MiddlewareChain.within_applyStages _ _) fun _ =>
    within_ite (within_ret _) (within_bind (within_chainInvoke rfl) fun _ => within_ret _)

/-- Awaiting the result of a batch of records delivers nothing. -/
theorem within_awaitListBatch (stage : PipelinedStage) (task : BatchTask) :
    (c.awaitListBatch stage task).Within (chainFrame _) :=
  within_catchException
    (within_bind (within_chainInvoke rfl) fun _ => within_bind (within_ofExcept _) fun _ =>
      MiddlewareChain.within_applyStages _ _) fun _ => within_ret _

omit [DecidableEq α] in
/-- Entering an Arrow batch into the pipeline delivers nothing. -/
theorem within_enterArrowBatch (stage : PipelinedStage) (batch : SourceBatch α χ) :
    (c.enterArrowBatch stage batch).Within (chainFrame _) :=
  within_bind (MiddlewareChain.within_applyArrowStages _ _) fun _ =>
    within_ite (within_ret _) (within_bind (within_chainInvoke rfl) fun _ => within_ret _)

omit [DecidableEq α] in
/-- Awaiting the result of an Arrow batch delivers nothing. -/
theorem within_awaitArrowBatch (stage : PipelinedStage) (task : BatchTask) :
    (c.awaitArrowBatch stage task).Within (chainFrame _) :=
  within_catchException
    (within_bind (within_chainInvoke rfl) fun _ => MiddlewareChain.within_applyArrowStages _ _)
    fun _ => within_ret _

end Batches

end ExecutionCoordinator

/-- A finalizing program leaves its mark first, and then only those of the delivery engine. -/
def Finalizes (batch : SourceBatch α χ) (p : Delivery ℓ α χ Unit) : Prop :=
  ∃ deliver : Delivery ℓ α χ Unit, p = (note (.finalizing batch) >>= fun _ => deliver) ∧
    deliver.Within (deliveryFrame ℓ Mark.IsDelivery)

namespace ExecutionCoordinator

variable (c : ExecutionCoordinator α χ) [DecidableEq χ]

/-- Batches of records are finalized with one mark first. -/
theorem finalizes_listBatch [DecidableEq α] (batch : SourceBatch α χ)
    (result : BatchProcessResult α) :
    Finalizes batch (c.finalizeListBatchResult batch result : Delivery ℓ α χ Unit) :=
  ⟨_, rfl, within_bind (c.delivery.within_writeBatchResult allowsWrites_isDelivery
    (fun _ => allowsUncaptured_isDelivery _) _ _) fun _ => within_hotFlush⟩

/-- So are Arrow batches. -/
theorem finalizes_arrowBatch (batch : SourceBatch α χ)
    (result : MiddlewareChain.ArrowProcessResult α) :
    Finalizes batch (c.finalizeArrowBatchResult batch result : Delivery ℓ α χ Unit) := by
  refine ⟨_, rfl, ?_⟩
  cases result.failure with
  | some failure => exact c.within_arrowMiddlewareFailed (allowsUncaptured_isDelivery _) _ _
  | none =>
    exact within_ite
      (within_bind (c.delivery.within_saveBatchCheckpoint _ _) fun _ => within_hotFlush)
      (c.within_deliverArrowRows allowsWrites_isDelivery _ _)

end ExecutionCoordinator

/-- The programs of a variant of the pipelined lane stay within their footprints. -/
structure PipelinedVariant.Framed {ρ : Type} (v : PipelinedVariant α χ ρ) : Prop where
  enter : ∀ batch, (v.enter batch).Within (chainFrame _)
  collect : ∀ task, (v.collect task).Within (chainFrame _)
  finalize : ∀ batch result, Finalizes batch (v.finalize batch result)

/-- The programs of the variant for batches of records stay within their footprints. -/
theorem framed_listVariant [DecidableEq α] [DecidableEq χ] (c : ExecutionCoordinator α χ)
    (stage : PipelinedStage) : (c.listVariant stage).Framed :=
  ⟨c.within_enterListBatch stage, c.within_awaitListBatch stage, c.finalizes_listBatch⟩

/-- So do those of the variant for Arrow batches. -/
theorem framed_arrowVariant [DecidableEq χ] (c : ExecutionCoordinator α χ)
    (stage : PipelinedStage) : (c.arrowVariant stage).Framed :=
  ⟨c.within_enterArrowBatch stage, c.within_awaitArrowBatch stage, c.finalizes_arrowBatch⟩

end AgoraEtl
