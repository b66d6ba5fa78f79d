import AgoraEtl.Delivery.Frame

/-!
# Batches of which some records fail

All outcomes of a batch carry the checkpoint of the end of the batch.  `commitOutcomes` counts the
records in order, persists the checkpoint that has fallen due on the way, and raises at the first
record that is errored and not routed, so that a save which falls due among the records before it
stands for records that were never handled.  `writeBatchResult_stops_iff` says exactly when a batch
with such a record stops the run as it should: when no save falls due before that record, and
neither a dead-letter write nor a success hook raises instead.
-/

namespace AgoraEtl

open Effect Program

variable {ℓ α χ β : Type}

/-- The exception is a `RecordDeliveryError`. -/
def Exc.IsRecordDelivery (e : Exc) : Prop := ∃ exc, e = .recordDelivery exc

/-! ## The two halves of a batch write -/

namespace CommitOutcome

/-- The record is errored and not routed. -/
def isUnrouted : CommitOutcome χ → Bool
  | erroredUnrouted _ => true
  | _ => false

/-- The success hooks of a handled record. -/
def hooks : CommitOutcome χ → List Hook
  | written _ onSuccess => onSuccess
  | dropped _ onSuccess => onSuccess
  | erroredRouted _ onSuccess => onSuccess
  | erroredUnrouted _ => []

/-- A handled record carries the checkpoint. -/
def Carries (checkpoint : Option χ) : CommitOutcome χ → Prop
  | written c _ => c = checkpoint
  | dropped c _ => c = checkpoint
  | erroredRouted c _ => c = checkpoint
  | erroredUnrouted _ => True

end CommitOutcome

namespace DeliveryEngine

variable (d : DeliveryEngine α χ)

section Halves

variable [DecidableEq α] [DecidableEq χ]

/-- The first half of a batch write: what the writer and the dead-letter sink make of the records,
unless the write failed as a whole. -/
def pairOutcomes (checkpoint : Option χ) (batchSize : ℕ) (pairs : List (α × α))
    (dropped : List (List Hook)) : Delivery ℓ α χ (Option (List (CommitOutcome χ))) := do
  let written ← catchSinkException
    (do
      let writeResults ← d.writeBatch (pairs.map Prod.snd)
      pure (some writeResults))
    fun exc => do
      d.batchWriteFailed exc checkpoint batchSize pairs dropped.flatten
      pure none
  match written with
  | none => pure none
  | some writeResults => do
    validateWriteResultCount "batch " pairs.length writeResults.length
    let outcomes ← d.resolvePairs checkpoint (pairs.zip writeResults)
    pure (some (dropped.map (CommitOutcome.dropped checkpoint) ++ outcomes))

/-- The outcomes of a batch that no middleware failed. -/
def batchOutcomes (result : BatchProcessResult α) (rawBatch : List α) (checkpoint : Option χ) :
    Delivery ℓ α χ (Option (List (CommitOutcome χ))) :=
  if result.passthrough then
    d.pairOutcomes checkpoint rawBatch.length (rawBatch.map fun r => (r, r)) []
  else if rawBatch.length ≠ result.results.length then
    raise (zipStrictError rawBatch.length result.results.length)
  else do
    let pairs := activeItems rawBatch result.results
    countDropped (result.results.length - pairs.length)
    let hooks ← droppedHooks (droppedRecords rawBatch result.results)
    if pairs.isEmpty then do
      d.saveBatchCheckpoint checkpoint result.results.length
      runHooks hooks.flatten
      pure none
    else d.pairOutcomes checkpoint result.results.length pairs hooks

/-- The second half of a batch write: commit the outcomes, if there are any. -/
def commitBatch : Option (List (CommitOutcome χ)) → Delivery ℓ α χ Unit
  | none => pure ()
  | some outcomes => d.commitOutcomes outcomes

/-- Writing pairs is resolving them and committing what becomes of them. -/
theorem writePairs_eq (checkpoint : Option χ) (batchSize : ℕ) (pairs : List (α × α))
    (dropped : List (List Hook)) :
    (d.writePairs checkpoint batchSize pairs dropped : Delivery ℓ α χ Unit) =
      d.pairOutcomes checkpoint batchSize pairs dropped >>= d.commitBatch := by
  unfold writePairs pairOutcomes
  rw [bind_assoc]
  congr 1
  funext written
  cases written with
  | none => rfl
  | some writeResults =>
    dsimp only
    rw [bind_assoc]
    congr 1
    funext u
    rw [bind_assoc]
    rfl

/-- A batch that no middleware failed is written and resolved first, and committed then. -/
theorem writeBatchResult_eq {result : BatchProcessResult α} (hresult : result.failure = none)
    (rawBatch : List α) (checkpoint : Option χ) :
    (d.writeBatchResult result rawBatch checkpoint : Delivery ℓ α χ Unit) =
      d.batchOutcomes result rawBatch checkpoint >>= d.commitBatch := by
  unfold writeBatchResult batchOutcomes
  rw [hresult]
  dsimp only
  split
  · exact d.writePairs_eq _ _ _ _
  · unfold writeBatchFiltered
    split
    · rfl
    · dsimp only
      rw [bind_assoc]
      congr 1
      funext u
      rw [bind_assoc]
      congr 1
      funext hooks
      split
      · rw [bind_assoc]
        congr 1
        funext u
        rw [bind_assoc]
        exact (bind_pure (runHooks hooks.flatten)).symm
      · exact d.writePairs_eq _ _ _ _

end Halves

end DeliveryEngine

/-! ## Which failures were captured -/

/-- The rows that a dead letter is about. -/
def DLQRecord.rows (letter : DLQRecord α χ) : Option α × Option α :=
  (letter.originalRecord, letter.processedRecord)

/-- A raw row and what became of it, as they are shown to the dead-letter sink. -/
def DeliveryEngine.letterRows (d : DeliveryEngine α χ) (pair : α × Option α) :
    Option α × Option α :=
  (some (d.redact Redactor.record pair.1), pair.2.map (d.redact Redactor.record))

/-- The values of the checkpoints that the store has taken, in their order. -/
def stored (t : RunTrace α χ) : List χ :=
  t.filterMap fun
    | .called (.await (.saveCheckpoint _ checkpoint)) (.ok _) => some checkpoint.value
    | _ => none

/-- The saves that were stored in two parts of a run follow one another. -/
@[simp] theorem stored_append (t t' : RunTrace α χ) : stored (t ++ t') = stored t ++ stored t' :=
  List.filterMap_append

/-- A mark stores nothing. -/
@[simp] theorem stored_mark (m : Mark α χ) : stored [.mark m] = [] := rfl

/-- A call that is no save stores nothing. -/
theorem stored_called {o : Call α χ} (ho : o.isSave = false) (r : o.Ret) :
    stored [.called o r] = [] := by
  cases o with
  | await a => cases a <;> first | rfl | cases ho
  | _ => rfl

/-- The failures of the sink that were not captured. -/
abbrev unroutedErrors (t : RunTrace α χ) : List Bool := uncapturedAt "sink_write" t

/-- The unrouted errors of two parts of a run follow one another. -/
theorem unroutedErrors_append (t t' : RunTrace α χ) :
    unroutedErrors (t ++ t') = unroutedErrors t ++ unroutedErrors t' := marked_append _ t t'

/-- Other marks are no unrouted errors. -/
theorem unroutedErrors_mark {m : Mark α χ} (hm : ∀ raised, m ≠ .uncaptured "sink_write" raised) :
    unroutedErrors ([.mark m] : RunTrace α χ) = [] := by
  cases m with
  | uncaptured stage raised =>
    have hstage : stage ≠ "sink_write" := fun h => hm raised (by rw [h])
    simp [uncapturedAt, hstage]
  | _ => rfl

/-- Resolving records: nothing is stored and the checkpoint state is kept; `failed` says whether some
failure was not captured. -/
structure Resolves (failed : Bool) (w w' : RunWorld ℓ α χ) : Prop where
  checkpointState : w'.state.checkpointState = w.state.checkpointState
  stored : AgoraEtl.stored w'.trace = AgoraEtl.stored w.trace
  unrouted : ∃ l, unroutedErrors w'.trace = unroutedErrors w.trace ++ l ∧ failed = !l.isEmpty

namespace Resolves

variable {failed failed' : Bool} {w w' w'' : RunWorld ℓ α χ}

/-- Resolving nothing fails nowhere. -/
theorem refl (w : RunWorld ℓ α χ) : Resolves false w w := ⟨rfl, rfl, [], by simp, rfl⟩

/-- Of two parts of a resolution one has failed if the whole has. -/
theorem trans (h : Resolves failed w w') (h' : Resolves failed' w' w'') :
    Resolves (failed || failed') w w'' := by
  obtain ⟨l, hl, rfl⟩ := h.unrouted
  obtain ⟨l', hl', rfl⟩ := h'.unrouted
  refine ⟨h'.checkpointState.trans h.checkpointState, h'.stored.trans h.stored, l ++ l', ?_, ?_⟩
  · rw [hl', hl, List.append_assoc]
  · cases l <;> simp

/-- Two attempts to route failures, of which both have to succeed. -/
theorem and {routed routed' : Bool} (h : Resolves (!routed) w w') (h' : Resolves (!routed') w' w'') :
    Resolves (!(routed && routed')) w w'' := by
  rw [Bool.not_and]
  exact h.trans h'

/-- A failure that was not captured. -/
theorem uncaptured (h : Resolves failed w w') (raised : Bool) :
    Resolves true w (w'.mark (.uncaptured "sink_write" raised)) := by
  obtain ⟨l, hl, -⟩ := h.unrouted
  refine ⟨h.checkpointState, ?_, l ++ [raised], ?_, by simp⟩
  · rw [World.mark_trace, stored_append, stored_mark, List.append_nil, h.stored]
  · simp [hl]

/-- Another mark. -/
theorem mark (h : Resolves failed w w') {m : Mark α χ}
    (hm : ∀ raised, m ≠ .uncaptured "sink_write" raised) : Resolves failed w (w'.mark m) := by
  refine ⟨h.checkpointState, ?_, ?_⟩
  · rw [World.mark_trace, stored_append, stored_mark, List.append_nil, h.stored]
  · have hsame : unroutedErrors (w'.mark m).trace = unroutedErrors w'.trace := by
      rw [World.mark_trace, unroutedErrors_append, unroutedErrors_mark hm, List.append_nil]
    rw [hsame]
    exact h.unrouted

/-- Some failure was not captured exactly when the list of such failures has grown. -/
theorem failed_iff (h : Resolves failed w w') :
    failed = true ↔ unroutedErrors w'.trace ≠ unroutedErrors w.trace := by
  obtain ⟨l, hl, rfl⟩ := h.unrouted
  rw [hl]
  simp

/-- A resolution that has not failed leaves no unrouted error. -/
theorem unroutedErrors_eq (h : Resolves false w w') :
    unroutedErrors w'.trace = unroutedErrors w.trace := by
  by_contra hne
  exact Bool.noConfusion (h.failed_iff.mpr hne)

end Resolves

/-- No attempt to capture a failure of the sink raises out of the dead-letter writer. -/
def DlqAnswers (_ : RunTrace α χ) (e : Event (Call α χ) Call.Ret (Mark α χ)) : Prop :=
  e ≠ .mark (.uncaptured "sink_write" true)

/-- If no unrouted error raised, no attempt to capture one did. -/
theorem along_dlqAnswers (t₀ : RunTrace α χ) {t₁ t₂ : RunTrace α χ}
    (h : ∀ raised ∈ unroutedErrors (t₁ ++ t₂), raised = false) : Along DlqAnswers t₀ t₁ := by
  refine along_iff.mpr fun before e after hcut he => ?_
  have htrue : true ∈ unroutedErrors (t₁ ++ t₂) := by
    refine (mem_marked _).mpr ⟨.uncaptured "sink_write" true, ?_, rfl⟩
    rw [hcut, he]
    simp
  exact Bool.noConfusion (h true htrue)

/-- The contract of a batch write; all that is ensured is in its postconditions. -/
abbrev resolveContract (ℓ : Type) : Contract (Call α χ) Call.Ret (Mark α χ) (RunState ℓ α χ) :=
  .alone DlqAnswers (fun _ _ => True) False

section Resolving

variable {w₀ w : RunWorld ℓ α χ}

/-- Programs that deliver nothing capture nothing either. -/
theorem safe_chain_resolves {p : Delivery ℓ α χ β} (hp : p.Within (chainFrame ℓ)) :
    p.Safe (resolveContract ℓ) (fun _ _ w' => Resolves false w w')
      (fun _ _ w' => Resolves false w w') w₀ w := by
  let T : RunTrace α χ → Prop := fun t =>
    stored t = stored w.trace ∧ unroutedErrors t = unroutedErrors w.trace
  have hframe : p.Safe (resolveContract ℓ)
      (fun _ _ w' => w'.state.queue = w.state.queue ∧
        w'.state.checkpointState = w.state.checkpointState ∧ T w'.trace)
      (fun _ _ w' => w'.state.queue = w.state.queue ∧
        w'.state.checkpointState = w.state.checkpointState ∧ T w'.trace) w₀ w := by
    refine safe_resolveFrame (fun _ _ hm => hm.elim) (fun t o r ho _ ht => ⟨trivial, ?_, ?_⟩) hp
      ⟨rfl, rfl⟩
    · rw [stored_append, stored_called ho, List.append_nil]
      exact ht.1
    · rw [unroutedErrors_append]
      exact (List.append_nil _).trans ht.2
  refine hframe.mono ?_ ?_
  all_goals
    intro _ _ w' hw'
    exact ⟨hw'.2.1, hw'.2.2.1, [], by rw [hw'.2.2.2, List.append_nil], rfl⟩

variable (d : DeliveryEngine α χ)

/-- The step lemma: one attempt to capture a failure. -/
theorem safe_writeToDlq_resolves (exc : Exc) (record : α) (processed : Option α)
    (checkpoint : Option χ) :
    (d.writeToDlq "sink_write" exc record processed checkpoint none : Delivery ℓ α χ Bool).Safe
      (resolveContract ℓ) (fun routed _ w' => Resolves (!routed) w w') (fun _ _ _ => False)
      w₀ w := by
  refine d.safe_writeToDlq_of (Resolves.refl w)
    (fun _ => safe_chain_resolves (d.within_attemptDlqWrite _ _ _ _ _ _))
    (fun _ hw' => ⟨hw'.checkpointState, hw'.stored, hw'.unrouted⟩)
    (fun hw' _ => ⟨trivial, hw'.uncaptured false⟩) fun _ hassume => ?_
  exact absurd rfl hassume

/-- The run lemma for the errors of one record. -/
theorem safe_routeErrors_resolves (rawRecord processedRecord : α) (checkpoint : Option χ)
    (errors : List Exc) :
    (d.routeErrors rawRecord processedRecord checkpoint errors : Delivery ℓ α χ Bool).Safe
      (resolveContract ℓ) (fun routed _ w' => Resolves (!routed) w w') (fun _ _ _ => False)
      w₀ w := by
  induction errors generalizing w₀ w with
  | nil => exact Resolves.refl w
  | cons err errors ih =>
    unfold DeliveryEngine.routeErrors
    rw [safe_bind]
    refine (safe_writeToDlq_resolves d _ _ _ _).mono (fun routed _ w' hw' => ?_) fun _ _ _ he => he
    rw [safe_bind]
    refine ih.mono (fun routedAll _ w'' hw'' => ?_) fun _ _ _ he => he
    exact hw'.and hw''

/-- The run lemma for one failure of all records. -/
theorem safe_routeAll_resolves (exc : Exc) (checkpoint : Option χ) (pairs : List (α × Option α)) :
    (d.routeAll "sink_write" exc checkpoint none pairs : Delivery ℓ α χ Bool).Safe
      (resolveContract ℓ) (fun routed _ w' => Resolves (!routed) w w') (fun _ _ _ => False)
      w₀ w := by
  induction pairs generalizing w₀ w with
  | nil => exact Resolves.refl w
  | cons pair pairs ih =>
    unfold DeliveryEngine.routeAll
    rw [safe_bind]
    refine (safe_writeToDlq_resolves d _ _ _ _).mono (fun routed _ w' hw' => ?_) fun _ _ _ he => he
    rw [safe_bind]
    refine ih.mono (fun routedAll _ w'' hw'' => ?_) fun _ _ _ he => he
    exact hw'.and hw''

/-- A record has an unrouted outcome exactly when a failure of it was not captured. -/
theorem safe_resolveWriteResult_resolves (hpolicy : d.sinkFailurePolicy = .failClosed)
    (writeResult : WriteResult) (rawRecord processedRecord : α) (checkpoint : Option χ)
    (onSuccess : List Hook) :
    (d.resolveWriteResult writeResult rawRecord processedRecord checkpoint onSuccess :
      Delivery ℓ α χ (CommitOutcome χ)).Safe (resolveContract ℓ)
      (fun outcome _ w' => Resolves outcome.isUnrouted w w' ∧ outcome.Carries checkpoint)
      (fun _ _ _ => False) w₀ w := by
  have hsettled : ∀ {failed : Bool} {w' : RunWorld ℓ α χ} (how : Handling),
      Resolves failed w w' → Resolves failed w (w'.mark (.settled checkpoint how)) :=
    fun how h => h.mark nofun
  unfold DeliveryEngine.resolveWriteResult countErrored countWritten countDropped count
  cases writeResult.errors with
  | nil =>
    dsimp only
    split
    all_goals
      rw [safe_bind, safe_modify, safe_bind, safe_note]
      exact fun _ => ⟨trivial, hsettled _ ⟨rfl, rfl, [], by simp, rfl⟩, rfl⟩
  | cons first rest =>
    rw [safe_bind]
    refine (safe_routeErrors_resolves d _ _ _ _).mono (fun routed _ w' hw' => ?_) fun _ _ _ he => he
    rw [safe_bind, safe_modify]
    -- counting touches nothing that is of interest here
    have hrest : ∀ (hooks : List Hook) (w₁ w'' : RunWorld ℓ α χ), Resolves (!routed) w w'' →
        (if (routed || decide (d.sinkFailurePolicy = .logAndContinue)) = true then do
            note (.settled checkpoint (DeliveryEngine.failureHandling routed))
            pure (.erroredRouted checkpoint hooks)
          else pure (.erroredUnrouted first) : Delivery ℓ α χ (CommitOutcome χ)).Safe
          (resolveContract ℓ)
          (fun outcome _ w' => Resolves outcome.isUnrouted w w' ∧ outcome.Carries checkpoint)
          (fun _ _ _ => False) w₁ w'' := by
      intro hooks w₁ w'' hw''
      cases routed with
      | true =>
        rw [Bool.true_or, if_pos rfl, safe_bind, safe_note]
        exact fun _ => ⟨trivial, hsettled _ hw'', rfl⟩
      | false =>
        rw [hpolicy, if_neg (by simp)]
        exact ⟨hw'', trivial⟩
    dsimp only
    split
    · rw [safe_bind, safe_modify]
      exact hrest _ _ _ ⟨hw'.checkpointState, hw'.stored, hw'.unrouted⟩
    · exact hrest _ _ _ ⟨hw'.checkpointState, hw'.stored, hw'.unrouted⟩

/-- How the first half may end in an exception: no failure is left uncaptured, or the exception is
that of a batch whose failures were not captured, and nothing was stored. -/
def EndsUnrouted (w : RunWorld ℓ α χ) (exc : Exc) (w' : RunWorld ℓ α χ) : Prop :=
  unroutedErrors w'.trace = unroutedErrors w.trace ∨
    (exc.IsRecordDelivery ∧ stored w'.trace = stored w.trace)

/-- An unrouted end after a resolution is one of the whole. -/
theorem EndsUnrouted.of_resolves {w w' w'' : RunWorld ℓ α χ} {exc : Exc}
    (h : Resolves false w w') (h' : EndsUnrouted w' exc w'') : EndsUnrouted w exc w'' :=
  h'.imp (fun h' => h'.trans h.unroutedErrors_eq) fun h' => ⟨h'.1, h'.2.trans h.stored⟩

/-- A resolution that has not failed comes before the end. -/
theorem EndsUnrouted.of_same {w w' : RunWorld ℓ α χ} {exc : Exc} (h : Resolves false w w') :
    EndsUnrouted w exc w' :=
  .inl h.unroutedErrors_eq

/-- What the first half of a batch write has found out about the records. -/
def Resolved (checkpoint : Option χ) (w : RunWorld ℓ α χ) :
    Option (List (CommitOutcome χ)) → RunWorld ℓ α χ → Prop
  | none, w' => unroutedErrors w'.trace = unroutedErrors w.trace
  | some outcomes, w' => Resolves (outcomes.any CommitOutcome.isUnrouted) w w' ∧
    ∀ o ∈ outcomes, o.Carries checkpoint

/-- Programs of the second half leave no marks. -/
theorem safe_silent {assume : RunTrace α χ → Event (Call α χ) Call.Ret (Mark α χ) → Prop}
    {p : Delivery ℓ α χ β} (hp : p.Within (deliveryFrame ℓ fun _ => False)) :
    p.Safe (.alone assume (fun _ _ => True) False)
      (fun _ _ w' => unroutedErrors w'.trace = unroutedErrors w.trace)
      (fun _ _ w' => unroutedErrors w'.trace = unroutedErrors w.trace) w₀ w := by
  refine (safe_deliveryFrame (T := fun t => unroutedErrors t = unroutedErrors w.trace)
    (fun _ _ hm => hm.elim) (fun t o r _ ht => ⟨trivial, ?_⟩) hp rfl).mono
    (fun _ _ _ h => h.2) fun _ _ _ h => h.2
  rw [unroutedErrors_append]
  exact (List.append_nil _).trans ht

section Pairs

variable [DecidableEq α]

/-- Collecting the hooks of records raises nothing. -/
theorem safe_popSuccessHooks_resolves (records : List α) :
    (popSuccessHooks records : Delivery ℓ α χ (List Hook)).Safe (resolveContract ℓ)
      (fun _ _ w' => Resolves false w w') (fun _ _ _ => False) w₀ w := by
  induction records generalizing w₀ w with
  | nil => exact Resolves.refl w
  | cons record records ih =>
    unfold popSuccessHooks popRegistrations
    rw [safe_bind, safe_bind, safe_read, safe_bind]
    refine safe_modify_of fun w' hstate htrace => ?_
    rw [pure_eq_ret, safe_ret, safe_bind]
    refine ih.mono (fun hooks _ w'' hw'' => ?_) fun _ _ _ he => he
    have hpop : Resolves false w w' :=
      ⟨by rw [hstate], by rw [htrace], [], by rw [htrace, List.append_nil], rfl⟩
    exact hpop.trans hw''

/-- Collecting the hooks of a record resolves nothing. -/
theorem safe_successHookFor_resolves (rawRecord : α) (processedRecord : Option α)
    (onSuccess : List Hook) :
    (successHookFor rawRecord processedRecord onSuccess : Delivery ℓ α χ (List Hook)).Safe
      (resolveContract ℓ) (fun _ _ w' => Resolves false w w') (fun _ _ _ => False) w₀ w := by
  unfold successHookFor
  cases processedRecord with
  | none =>
    rw [safe_bind]
    exact (safe_popSuccessHooks_resolves _).mono (fun _ _ _ h => h) fun _ _ _ he => he
  | some processed =>
    rw [safe_bind]
    exact (safe_popSuccessHooks_resolves _).mono (fun _ _ _ h => h) fun _ _ _ he => he

/-- Nor does collecting those of the dropped records. -/
theorem safe_droppedHooks_resolves (records : List α) :
    (DeliveryEngine.droppedHooks records : Delivery ℓ α χ (List (List Hook))).Safe (resolveContract ℓ)
      (fun _ _ w' => Resolves false w w') (fun _ _ _ => False) w₀ w := by
  induction records generalizing w₀ w with
  | nil => exact Resolves.refl w
  | cons record records ih =>
    unfold DeliveryEngine.droppedHooks
    rw [safe_bind]
    refine (safe_successHookFor_resolves _ _ _).mono (fun _ _ w' hw' => ?_) fun _ _ _ he => he
    rw [safe_bind]
    exact ih.mono (fun _ _ w'' hw'' => hw'.trans hw'') fun _ _ _ he => he

/-- The run lemma for the results of a batch write. -/
theorem safe_resolvePairs_resolves (hpolicy : d.sinkFailurePolicy = .failClosed)
    (checkpoint : Option χ) (items : List ((α × α) × WriteResult)) :
    (d.resolvePairs checkpoint items : Delivery ℓ α χ (List (CommitOutcome χ))).Safe
      (resolveContract ℓ)
      (fun outcomes _ w' => Resolves (outcomes.any CommitOutcome.isUnrouted) w w' ∧
        ∀ o ∈ outcomes, o.Carries checkpoint)
      (fun _ _ _ => False) w₀ w := by
  induction items generalizing w₀ w with
  | nil => exact ⟨Resolves.refl w, nofun⟩
  | cons item items ih =>
    unfold DeliveryEngine.resolvePairs DeliveryEngine.resolveRecord
    rw [safe_bind]
    refine (safe_successHookFor_resolves _ _ _).mono (fun hooks _ w₁ hw₁ => ?_) fun _ _ _ he => he
    rw [safe_bind, safe_bind]
    refine (safe_successHookFor_resolves _ _ _).mono (fun hooks' _ w₂ hw₂ => ?_)
      fun _ _ _ he => he
    refine (safe_resolveWriteResult_resolves d hpolicy _ _ _ _ _).mono
      (fun outcome _ w₃ hw₃ => ?_) fun _ _ _ he => he
    rw [safe_bind]
    refine ih.mono (fun outcomes _ w₄ hw₄ => ?_) fun _ _ _ he => he
    have hhooks : Resolves false w w₂ := hw₁.trans hw₂
    have hrecord : Resolves outcome.isUnrouted w w₃ := hhooks.trans hw₃.1
    refine ⟨?_, fun o ho => ?_⟩
    · rw [List.any_cons]
      exact hrecord.trans hw₄.1
    · rcases List.mem_cons.mp ho with rfl | ho
      · exact hw₃.2
      · exact hw₄.2 o ho

/-! ## The first half of a batch write -/

variable [DecidableEq χ]

/-- A batch whose write failed as a whole: unless every record was routed, nothing is stored. -/
theorem safe_batchWriteFailed_resolves (hpolicy : d.sinkFailurePolicy = .failClosed) (exc : Exc)
    (checkpoint : Option χ) (batchSize : ℕ) (pairs : List (α × α)) (hooks : List Hook) :
    (d.batchWriteFailed exc checkpoint batchSize pairs hooks : Delivery ℓ α χ Unit).Safe
      (resolveContract ℓ) (fun _ _ w' => Resolved checkpoint w none w') (fun e _ => EndsUnrouted w e)
      w₀ w := by
  unfold DeliveryEngine.batchWriteFailed countErrored count
  rw [safe_bind]
  refine (safe_routeAll_resolves d _ _ _).mono (fun routed _ w₁ hw₁ => ?_) fun _ _ _ he => he.elim
  rw [safe_bind]
  refine safe_modify_of fun w₂ hstate htrace => ?_
  cases routed with
  | true =>
    have hsame : unroutedErrors w₂.trace = unroutedErrors w.trace := by
      rw [htrace]
      exact hw₁.unroutedErrors_eq
    rw [Bool.true_or, if_pos rfl, if_pos rfl]
    refine (safe_silent ?_).mono (fun _ _ w' hw' => hw'.trans hsame)
      fun _ _ w' hw' => .inl (hw'.trans hsame)
    exact within_bind (d.within_saveBatchCheckpoint _ _) fun _ =>
      within_bind (within_of_resolve (within_runHooks _)) fun _ =>
        within_of_resolve (DeliveryEngine.within_runPairHooks _)
  | false =>
    rw [hpolicy, if_neg (by simp)]
    refine .inr ⟨⟨exc, rfl⟩, ?_⟩
    rw [htrace]
    exact hw₁.stored

/-- Under FAIL_CLOSED the pairs of a batch are resolved, or the write ends unrouted. -/
theorem safe_pairOutcomes_resolves (hpolicy : d.sinkFailurePolicy = .failClosed)
    (checkpoint : Option χ) (batchSize : ℕ) (pairs : List (α × α)) (dropped : List (List Hook)) :
    (d.pairOutcomes checkpoint batchSize pairs dropped :
      Delivery ℓ α χ (Option (List (CommitOutcome χ)))).Safe (resolveContract ℓ)
      (fun outcomes _ => Resolved checkpoint w outcomes) (fun e _ => EndsUnrouted w e) w₀ w := by
  unfold DeliveryEngine.pairOutcomes catchSinkException
  rw [safe_bind, safe_catchException, safe_bind]
  refine (safe_chain_resolves (d.within_writeBatch _)).mono (fun writeResults _ w₁ hw₁ => ?_)
    fun exc _ w₁ hw₁ => ?_
  · -- the batch was written
    simp only [pure_eq_ret, safe_ret]
    unfold validateWriteResultCount
    rw [safe_bind]
    split
    · exact EndsUnrouted.of_same hw₁
    · simp only [pure_eq_ret, safe_ret]
      rw [safe_bind]
      refine (safe_resolvePairs_resolves d hpolicy _ _).mono (fun outcomes _ w₂ hw₂ => ?_)
        fun _ _ _ he => he.elim
      have hdropped : (dropped.map (CommitOutcome.dropped checkpoint)).any
          CommitOutcome.isUnrouted = false := by
        simp [CommitOutcome.isUnrouted]
      refine ⟨?_, fun o ho => ?_⟩
      · rw [List.any_append, hdropped]
        exact hw₁.trans hw₂.1
      · rcases List.mem_append.mp ho with ho | ho
        · obtain ⟨hooks, -, rfl⟩ := List.mem_map.mp ho
          rfl
        · exact hw₂.2 o ho
  · -- the write failed as a whole
    split
    · split
      · exact EndsUnrouted.of_same hw₁
      · rw [safe_bind]
        refine (safe_batchWriteFailed_resolves d hpolicy _ _ _ _ _).mono (fun _ _ w₂ hw₂ => ?_)
          fun _ _ _ he => he.of_resolves hw₁
        exact Eq.trans hw₂ hw₁.unroutedErrors_eq
    · exact EndsUnrouted.of_same hw₁

/-- The first half stores nothing as long as a failure is not captured, unless it raises the
exception of the batch. -/
theorem safe_batchOutcomes_resolves (hpolicy : d.sinkFailurePolicy = .failClosed)
    (result : BatchProcessResult α) (rawBatch : List α) (checkpoint : Option χ) :
    (d.batchOutcomes result rawBatch checkpoint :
      Delivery ℓ α χ (Option (List (CommitOutcome χ)))).Safe (resolveContract ℓ)
      (fun outcomes _ => Resolved checkpoint w outcomes) (fun e _ => EndsUnrouted w e) w₀ w := by
  unfold DeliveryEngine.batchOutcomes
  split
  · exact safe_pairOutcomes_resolves d hpolicy _ _ _ _
  · split
    · exact .inl rfl
    · dsimp only
      unfold countDropped count
      rw [safe_bind]
      refine safe_modify_of fun w₁ hstate htrace => ?_
      have hw₁ : Resolves false w w₁ :=
        ⟨by rw [hstate], by rw [htrace], [], by rw [htrace, List.append_nil], rfl⟩
      rw [safe_bind]
      refine (safe_droppedHooks_resolves _).mono (fun hooks _ w₂ hw₂ => ?_) fun _ _ _ he => he.elim
      have hw₂' : Resolves false w w₂ := hw₁.trans hw₂
      have hsame : unroutedErrors w₂.trace = unroutedErrors w.trace := hw₂'.unroutedErrors_eq
      split
      · -- every record was dropped
        rw [safe_bind]
        refine (safe_silent (d.within_saveBatchCheckpoint _ _)).mono (fun _ _ w₃ hw₃ => ?_)
          fun _ _ w' hw' => .inl (hw'.trans hsame)
        rw [safe_bind]
        refine (safe_silent (within_of_resolve (within_runHooks _))).mono (fun _ _ w₄ hw₄ => ?_)
          fun _ _ w' hw' => .inl ((hw'.trans hw₃).trans hsame)
        exact (hw₄.trans hw₃).trans hsame
      · refine (safe_pairOutcomes_resolves d hpolicy _ _ _ _).mono (fun outcomes _ w' hw' => ?_)
          fun _ _ _ he => he.of_resolves hw₂'
        cases outcomes with
        | none => exact Eq.trans hw' hsame
        | some outcomes => exact ⟨hw₂'.trans hw'.1, hw'.2⟩

end Pairs

end Resolving

/-! ## The second half of a batch write -/

/-- The exception with which running hooks ends, if they do not all return. -/
def hooksRaise (h : Environment α χ) : RunTrace α χ → List Hook → Option Exc
  | _, [] => none
  | t, hook :: hooks =>
    match h t (.await (.successHook hook)) with
    | .ok () => hooksRaise h (t ++ [.called (.await (.successHook hook)) (.ok ())]) hooks
    | .error exc => some exc

/-- The loop over hooks ends with the first one that raises, and stores nothing. -/
theorem run_runHooks (h : Environment α χ) (hooks : List Hook) (w : RunWorld ℓ α χ) :
    ∃ w', (runHooks hooks : Delivery ℓ α χ Unit).run h w =
        ((match hooksRaise h w.trace hooks with
          | none => .returned ()
          | some exc => .raised exc), w') ∧ stored w'.trace = stored w.trace := by
  induction hooks generalizing w with
  | nil => exact ⟨w, rfl, rfl⟩
  | cons hook hooks ih =>
    unfold runHooks invoke hooksRaise
    rw [run_bind, run_bind, run_perform]
    dsimp only
    cases hanswer : h w.trace (.await (.successHook hook)) with
    | ok u =>
      obtain ⟨w', hrun, hstored⟩ := ih (w.called (.await (.successHook hook)) (.ok u))
      refine ⟨w', hrun, hstored.trans ?_⟩
      rw [World.called_trace, stored_append, stored_called rfl, List.append_nil]
    | error exc =>
      refine ⟨_, rfl, ?_⟩
      rw [World.called_trace, stored_append, stored_called rfl, List.append_nil]

namespace DeliveryEngine

variable (d : DeliveryEngine α χ)

/-- The attempt of `persistCheckpoint` to save a checkpoint. -/
def attemptSave (value : χ) : Delivery ℓ α χ Bool := do
  d.assertRunFenceActive
  if d.checkpointStore = false then
    raise (.runtimeError "checkpoint_store is None — cannot persist checkpoint")
  invoke (.saveCheckpoint d.checkpointKey (d.checkpointOf value))
  pure true

/-- The attempt depends on nothing but the trace; it stores the checkpoint exactly when it
returns. -/
theorem run_attemptSave (h : Environment α χ) (value : χ) (hstore : d.checkpointStore = true)
    (w : RunWorld ℓ α χ) :
    ∃ r t, r ≠ .hung ∧ (∀ s, (d.attemptSave value).run h (w.write s) = (r, ⟨s, t⟩)) ∧
      stored t = stored w.trace ++ (match r with | .returned _ => [value] | _ => []) := by
  have hsave : ∀ t : RunTrace α χ, stored t = stored w.trace →
      ∃ r t', r ≠ .hung ∧ (∀ s, (do
          invoke (.saveCheckpoint d.checkpointKey (d.checkpointOf value))
          pure true : Delivery ℓ α χ Bool).run h ⟨s, t⟩ = (r, ⟨s, t'⟩)) ∧
        stored t' = stored w.trace ++ (match r with | .returned _ => [value] | _ => []) := by
    intro t ht
    unfold invoke
    simp only [run_bind, run_perform]
    cases h t (.await (.saveCheckpoint d.checkpointKey (d.checkpointOf value))) with
    | ok u =>
      refine ⟨.returned true,
        t ++ [.called (.await (.saveCheckpoint d.checkpointKey (d.checkpointOf value))) (.ok u)],
        nofun, fun s => rfl, ?_⟩
      rw [stored_append, ht]
      rfl
    | error exc =>
      refine ⟨.raised exc,
        t ++ [.called (.await (.saveCheckpoint d.checkpointKey (d.checkpointOf value))) (.error exc)],
        nofun, fun s => rfl, ?_⟩
      rw [stored_append, ht]
      rfl
  unfold attemptSave assertRunFenceActive
  simp only [hstore, Bool.true_eq_false, if_false]
  split
  · unfold invoke
    simp only [run_bind, run_perform, World.write_trace]
    have hvalidated : ∀ r, stored (w.trace ++ [.called (.await .validateFence) r]) =
        stored w.trace := fun r => by
      rw [stored_append, stored_called rfl, List.append_nil]
    cases h w.trace (.await .validateFence) with
    | error exc =>
      refine ⟨.raised exc, w.trace ++ [.called (.await .validateFence) (.error exc)], nofun,
        fun s => rfl, ?_⟩
      rw [hvalidated]
      exact (List.append_nil _).symm
    | ok active =>
      cases active with
      | false =>
        refine ⟨.raised (.fenceLost
          "Pipeline run lost its distributed lease fence before a side effect."),
          w.trace ++ [.called (.await .validateFence) (.ok false)], nofun, fun s => rfl, ?_⟩
        rw [hvalidated]
        exact (List.append_nil _).symm
      | true =>
        obtain ⟨r, t, hr, hrun, hstored⟩ := hsave (w.trace ++ [.called (.await .validateFence)
          (.ok true)]) (hvalidated (.ok true))
        refine ⟨r, t, hr, fun s => ?_, hstored⟩
        rw [← hrun s]
        unfold invoke
        simp only [run_bind, run_perform]
        rfl
  · exact hsave _ rfl

/-- What a checkpoint that is persisted comes to: the attempt returns, or its exception is logged
only, or another exception is raised that is no `RecordDeliveryError`. -/
theorem run_persistCheckpoint (h : Environment α χ) (value : χ) (batchSize : ℕ)
    {r : Outcome Exc Bool} {t : RunTrace α χ} (hr : r ≠ .hung) {w : RunWorld ℓ α χ}
    (hattempt : (d.attemptSave value).run h w = (r, ⟨w.state, t⟩)) :
    ∃ s', (d.persistCheckpoint (d.checkpointOf value) batchSize : Delivery ℓ α χ Unit).run h w =
      ((match r with
        | .raised exc =>
          if exc.isException then
            if d.checkpointFailurePolicy = .logAndContinue then .returned ()
            else .raised (.checkpointSave exc)
          else .raised exc
        | _ => .returned ()), ⟨s', t⟩) := by
  have hpersist : (d.persistCheckpoint (d.checkpointOf value) batchSize : Delivery ℓ α χ Unit) =
      (do
        let saved ← catchException (d.attemptSave value) fun exc => do
          modify fun s => { s with
            metrics := { s.metrics with
              checkpointFailureCount := s.metrics.checkpointFailureCount + 1 } }
          if d.checkpointFailurePolicy = .logAndContinue then pure false
          else raise (.checkpointSave exc)
        modify fun s => { s with
          checkpointState := s.checkpointState.markSaved (d.checkpointOf value).value }
        if saved then
          modify fun s => { s with
            metrics := { s.metrics with
              checkpointSaveCount := s.metrics.checkpointSaveCount + 1
              checkpointSaveMaxBatchSize := max s.metrics.checkpointSaveMaxBatchSize batchSize } }
        else pure ()) := rfl
  rw [hpersist]
  unfold catchException
  rw [run_bind, run_bind, run_attempt, hattempt]
  cases r with
  | hung => exact absurd rfl hr
  | returned saved =>
    cases saved with
    | true => exact ⟨_, rfl⟩
    | false => exact ⟨_, rfl⟩
  | raised exc =>
    cases hexc : exc.isException with
    | false =>
      refine ⟨w.state, ?_⟩
      simp [Outcome.caught, hexc]
    | true =>
      cases hpolicy : d.checkpointFailurePolicy with
      | failClosed => exact ⟨_, by simp [Outcome.caught, hexc, run_bind]; rfl⟩
      | logAndContinue => exact ⟨_, by simp [Outcome.caught, hexc, run_bind]; rfl⟩

section Due

variable [DecidableEq χ]

/-- Counting so many handled records makes a save of the checkpoint fall due. -/
def SaveDue (c : CheckpointState χ) (checkpoint : Option χ) (n : ℕ) : Prop :=
  d.checkpointStore = true ∧ ∃ v, checkpoint = some v ∧
    ∃ k < n, (c.incrementBy (k + 1)).shouldSave v d.checkpointEvery = true

variable {d}

/-- Where nothing is counted no save is due. -/
theorem not_saveDue_zero (c : CheckpointState χ) (checkpoint : Option χ) :
    ¬ d.SaveDue c checkpoint 0 := by
  rintro ⟨-, v, -, k, hk, -⟩
  exact Nat.not_lt_zero k hk

/-- A save is due for several records if it is for the first or for the others. -/
theorem saveDue_succ (c : CheckpointState χ) (checkpoint : Option χ) (n : ℕ) :
    d.SaveDue c checkpoint (n + 1) ↔
      d.SaveDue c checkpoint 1 ∨ d.SaveDue (c.incrementBy 1) checkpoint n := by
  have hadd : ∀ k, (c.incrementBy 1).incrementBy (k + 1) = c.incrementBy (k + 1 + 1) := fun k => by
    unfold CheckpointState.incrementBy
    simp only [CheckpointState.mk.injEq, and_true]
    omega
  constructor
  · rintro ⟨hstore, v, hv, k, hk, hsave⟩
    cases k with
    | zero => exact .inl ⟨hstore, v, hv, 0, Nat.one_pos, hsave⟩
    | succ k =>
      refine .inr ⟨hstore, v, hv, k, Nat.lt_of_succ_lt_succ hk, ?_⟩
      rw [hadd]
      exact hsave
  · rintro (⟨hstore, v, hv, k, hk, hsave⟩ | ⟨hstore, v, hv, k, hk, hsave⟩)
    · exact ⟨hstore, v, hv, k, by omega, hsave⟩
    · refine ⟨hstore, v, hv, k + 1, Nat.succ_lt_succ hk, ?_⟩
      rw [← hadd]
      exact hsave

/-- A pending commit after so many handled records were counted into it. -/
def CountedInto (d : DeliveryEngine α χ) (c : CheckpointState χ) (checkpoint : Option χ) (n : ℕ)
    (pending pending' : PendingCommit χ) : Prop :=
  (¬ d.SaveDue c checkpoint n ∧ pending'.checkpoint = pending.checkpoint) ∨
    ∃ v size, checkpoint = some v ∧ d.SaveDue c checkpoint n ∧
      pending'.checkpoint = some (d.checkpointOf v, size)

/-- The step lemma: counting one handled record. -/
theorem run_preparePending (h : Environment α χ) (pending : PendingCommit χ)
    (checkpoint : Option χ) (hooks : List Hook) (w : RunWorld ℓ α χ) :
    ∃ (pending' : PendingCommit χ) (s' : RunState ℓ α χ),
      (d.preparePending pending checkpoint hooks).run h w = (.returned pending', w.write s') ∧
      pending'.hooks = pending.hooks ++ hooks ∧
      CountedInto d w.state.checkpointState checkpoint 1 pending pending' ∧
      ∀ n, d.SaveDue s'.checkpointState checkpoint n ↔
        d.SaveDue (w.state.checkpointState.incrementBy 1) checkpoint n := by
  unfold preparePending prepareCheckpoint
  rw [run_bind]
  cases hstore : d.checkpointStore with
  | false =>
    have hnot : ∀ c n, ¬ d.SaveDue c checkpoint n := fun c n hdue => by
      have := hdue.1
      rw [hstore] at this
      cases this
    exact ⟨_, w.state, rfl, rfl, .inl ⟨hnot _ _, rfl⟩, fun n => iff_of_false (hnot _ _) (hnot _ _)⟩
  | true =>
    cases checkpoint with
    | none =>
      have hnot : ∀ c n, ¬ d.SaveDue c none n := by
        rintro c n ⟨-, v, hv, -⟩
        cases hv
      exact ⟨_, w.state, rfl, rfl, .inl ⟨hnot _ _, rfl⟩, fun n => iff_of_false (hnot _ _) (hnot _ _)⟩
    | some v =>
      unfold countProcessed
      rw [run_bind, run_modify]
      dsimp only
      rw [run_bind, run_read]
      dsimp only
      by_cases hsave : (w.state.checkpointState.incrementBy 1).shouldSave v d.checkpointEvery = true
      · rw [World.write_state, if_pos hsave]
        exact ⟨_, _, rfl, rfl, .inr ⟨v, _, rfl, ⟨hstore, v, rfl, 0, Nat.one_pos, hsave⟩, rfl⟩,
          fun n => Iff.rfl⟩
      · rw [World.write_state, if_neg hsave]
        refine ⟨_, _, rfl, rfl, .inl ⟨?_, rfl⟩, fun n => Iff.rfl⟩
        rintro ⟨-, v', hv', k, hk, hsave'⟩
        cases hv'
        rw [Nat.lt_one_iff.mp hk] at hsave'
        exact hsave hsave'

/-- A handled outcome is counted into the pending commit. -/
theorem commitOutcomesFrom_handled {outcome : CommitOutcome χ} {checkpoint : Option χ}
    (hhandled : outcome.isUnrouted = false) (hcarries : outcome.Carries checkpoint)
    (pending : PendingCommit χ) (outcomes : List (CommitOutcome χ)) :
    (d.commitOutcomesFrom pending (outcome :: outcomes) : Delivery ℓ α χ Unit) =
      d.preparePending pending checkpoint outcome.hooks >>= fun pending =>
        d.commitOutcomesFrom pending outcomes := by
  cases outcome with
  | erroredUnrouted exc => cases hhandled
  | written c onSuccess => cases hcarries; rfl
  | dropped c onSuccess => cases hcarries; rfl
  | erroredRouted c onSuccess => cases hcarries; rfl

/-- The run lemma: counting the handled records at the front of a batch. -/
theorem run_commitOutcomesFrom_handled (h : Environment α χ) {checkpoint : Option χ}
    (handled rest : List (CommitOutcome χ))
    (hhandled : ∀ o ∈ handled, o.isUnrouted = false ∧ o.Carries checkpoint)
    (pending : PendingCommit χ) (w : RunWorld ℓ α χ) :
    ∃ (pending' : PendingCommit χ) (s' : RunState ℓ α χ),
      (d.commitOutcomesFrom pending (handled ++ rest)).run h w =
        (d.commitOutcomesFrom pending' rest).run h (w.write s') ∧
      pending'.hooks = pending.hooks ++ handled.flatMap CommitOutcome.hooks ∧
      CountedInto d w.state.checkpointState checkpoint handled.length pending pending' := by
  induction handled generalizing pending w with
  | nil => exact ⟨pending, w.state, rfl, by simp, .inl ⟨not_saveDue_zero _ _, rfl⟩⟩
  | cons outcome handled ih =>
    obtain ⟨houtcome, hcarries⟩ := hhandled outcome List.mem_cons_self
    obtain ⟨pending₁, s₁, hrun₁, hhooks₁, hcount₁, hdue₁⟩ :=
      run_preparePending (d := d) h pending checkpoint outcome.hooks w
    obtain ⟨pending₂, s₂, hrun₂, hhooks₂, hcount₂⟩ :=
      ih (fun o ho => hhandled o (List.mem_cons_of_mem _ ho)) pending₁ (w.write s₁)
    refine ⟨pending₂, s₂, ?_, ?_, ?_⟩
    · rw [List.cons_append, commitOutcomesFrom_handled houtcome hcarries,
        run_bind_returned h hrun₁]
      exact hrun₂
    · rw [hhooks₂, hhooks₁, List.flatMap_cons, List.append_assoc]
    · unfold CountedInto
      rw [List.length_cons, saveDue_succ]
      rw [World.write_state] at hcount₂
      rcases hcount₂ with ⟨hnot₂, hsame₂⟩ | ⟨v, size, hv, hdue₂, hpending₂⟩
      · rw [hdue₁] at hnot₂
        rcases hcount₁ with ⟨hnot₁, hsame₁⟩ | ⟨v, size, hv, hdue, hpending⟩
        · exact .inl ⟨fun hdue => hdue.elim hnot₁ hnot₂, hsame₂.trans hsame₁⟩
        · exact .inr ⟨v, size, hv, .inl hdue, hsame₂.trans hpending⟩
      · exact .inr ⟨v, size, hv, .inr ((hdue₁ _).mp hdue₂), hpending₂⟩

/-- The trace at which the hooks of the handled records begin to run: that of the attempt to save, if
a save has fallen due. -/
def HooksBegin (d : DeliveryEngine α χ) (h : Environment α χ) (w : RunWorld ℓ α χ)
    (checkpoint : Option χ) (n : ℕ) (t : RunTrace α χ) : Prop :=
  (¬ d.SaveDue w.state.checkpointState checkpoint n ∧ t = w.trace) ∨
    ∃ v, checkpoint = some v ∧ d.SaveDue w.state.checkpointState checkpoint n ∧
      t = ((d.attemptSave v).run h w).2.trace

/-- The handled records at the front of a batch are committed without a trace: no save falls due among
them, or the store refuses it and such failures are only logged; and their hooks raise nothing. -/
structure CommitsQuietly (d : DeliveryEngine α χ) (h : Environment α χ) (w : RunWorld ℓ α χ)
    (checkpoint : Option χ) (handled : List (CommitOutcome χ)) : Prop where
  save : ∀ v, checkpoint = some v →
    d.SaveDue w.state.checkpointState checkpoint handled.length →
      d.checkpointFailurePolicy = .logAndContinue ∧
        ∃ exc, ((d.attemptSave v).run h w).1 = .raised exc ∧ exc.isException = true
  hooks : ∀ t exc, d.HooksBegin h w checkpoint handled.length t →
    hooksRaise h t (handled.flatMap CommitOutcome.hooks) = some exc → exc.IsRecordDelivery

omit [DecidableEq χ] in
/-- The run of the hooks and the exception of the batch after them. -/
theorem run_hooks_raise (h : Environment α χ) (hooks : List Hook) (exc : Exc) (w : RunWorld ℓ α χ) :
    ∃ r w', (runHooks hooks >>= fun _ => raiseRecordDelivery exc :
        Delivery ℓ α χ Unit).run h w = (r, w') ∧ stored w'.trace = stored w.trace ∧
      ((∃ e, r = .raised (.recordDelivery e)) ↔
        ∀ e, hooksRaise h w.trace hooks = some e → e.IsRecordDelivery) := by
  obtain ⟨w', hrun, hstored⟩ := run_runHooks (ℓ := ℓ) h hooks w
  rw [run_bind, hrun]
  cases hooksRaise h w.trace hooks with
  | none => exact ⟨_, w', rfl, hstored, ⟨fun _ => nofun, fun _ => ⟨exc, rfl⟩⟩⟩
  | some e =>
    refine ⟨_, w', rfl, hstored, ⟨?_, fun he => ?_⟩⟩
    · rintro ⟨e', he'⟩ e'' he''
      cases he'
      cases he''
      exact ⟨e', rfl⟩
    · obtain ⟨e', rfl⟩ := he e rfl
      exact ⟨e', rfl⟩

section Quietly

variable {h : Environment α χ} {w : RunWorld ℓ α χ}

/-- Where no save falls due only the hooks can leave a trace. -/
theorem commitsQuietly_of_not_due {checkpoint : Option χ} {handled : List (CommitOutcome χ)}
    (hnot : ¬ d.SaveDue w.state.checkpointState checkpoint handled.length) :
    d.CommitsQuietly h w checkpoint handled ↔
      ∀ e, hooksRaise h w.trace (handled.flatMap CommitOutcome.hooks) = some e →
        e.IsRecordDelivery := by
  constructor
  · exact fun hquiet e => hquiet.hooks _ e (.inl ⟨hnot, rfl⟩)
  · refine fun hhooks => ⟨fun v _ hdue => absurd hdue hnot, fun t e hbegin => ?_⟩
    rcases hbegin with ⟨-, rfl⟩ | ⟨v, -, hdue, -⟩
    · exact hhooks e
    · exact absurd hdue hnot

/-- Where a save falls due its failure has to be logged only, and the hooks run after it. -/
theorem commitsQuietly_of_due {v : χ} {handled : List (CommitOutcome χ)}
    (hdue : d.SaveDue w.state.checkpointState (some v) handled.length) {ra : Outcome Exc Bool}
    {ta : RunTrace α χ} (hattempt : (d.attemptSave v).run h w = (ra, ⟨w.state, ta⟩)) :
    d.CommitsQuietly h w (some v) handled ↔
      (d.checkpointFailurePolicy = .logAndContinue ∧ ∃ e, ra = .raised e ∧ e.isException = true) ∧
        ∀ e, hooksRaise h ta (handled.flatMap CommitOutcome.hooks) = some e →
          e.IsRecordDelivery := by
  have hra : ((d.attemptSave v).run h w).1 = ra := congrArg Prod.fst hattempt
  have hta : ((d.attemptSave v).run h w).2.trace = ta := by rw [hattempt]
  constructor
  · intro hquiet
    have hsave := hquiet.save v rfl hdue
    rw [hra] at hsave
    exact ⟨hsave, fun e => hquiet.hooks ta e (.inr ⟨v, rfl, hdue, hta.symm⟩)⟩
  · rintro ⟨hsave, hhooks⟩
    refine ⟨fun v' hv' _ => ?_, fun t e hbegin => ?_⟩
    · cases hv'
      rw [hra]
      exact hsave
    · rcases hbegin with ⟨hnot, -⟩ | ⟨v', hv', -, rfl⟩
      · exact absurd hdue hnot
      · cases hv'
        rw [hta]
        exact hhooks e

omit [DecidableEq χ] in
/-- The save of a checkpoint, the hooks after it, and the exception of the batch at the end: nothing is
stored and the exception is that of the batch exactly when the failure to save is logged only and the
hooks raise nothing else. -/
theorem run_persist_hooks {v : χ} {ra : Outcome Exc Bool} {ta : RunTrace α χ}
    (hstored : stored ta = stored w.trace ++ (match ra with | .returned _ => [v] | _ => []))
    (hra : ra ≠ .hung) {s : RunState ℓ α χ}
    (hattempt : (d.attemptSave v).run h (w.write s) = (ra, ⟨s, ta⟩)) (size : ℕ)
    (hooks : List Hook) (exc : Exc) {w' : RunWorld ℓ α χ} {r : Outcome Exc Unit}
    (hrun : (d.persistCheckpoint (d.checkpointOf v) size >>= fun _ => runHooks hooks >>= fun _ =>
      raiseRecordDelivery exc : Delivery ℓ α χ Unit).run h (w.write s) = (r, w')) :
    ((∃ e, r = .raised (.recordDelivery e)) ∧ stored w'.trace = stored w.trace) ↔
      (d.checkpointFailurePolicy = .logAndContinue ∧ ∃ e, ra = .raised e ∧ e.isException = true) ∧
        ∀ e, hooksRaise h ta hooks = some e → e.IsRecordDelivery := by
  obtain ⟨s', hpersist⟩ := d.run_persistCheckpoint h v size hra hattempt
  obtain ⟨r', w₂, hhooks, hstored', hraised⟩ := run_hooks_raise h hooks exc (⟨s', ta⟩ : RunWorld ℓ α χ)
  rw [run_bind, hpersist] at hrun
  cases ra with
  | hung => exact absurd rfl hra
  | returned saved =>
    -- the store has taken the checkpoint
    obtain ⟨rfl, rfl⟩ : r = r' ∧ w' = w₂ := Prod.mk.inj (hrun.symm.trans hhooks)
    refine iff_of_false ?_ ?_
    · rintro ⟨-, hsame⟩
      rw [hstored', hstored] at hsame
      simp at hsame
    · rintro ⟨⟨-, e, he, -⟩, -⟩
      cases he
  | raised e =>
    rw [List.append_nil] at hstored
    cases hexc : e.isException with
    | false =>
      simp only [hexc, Bool.false_eq_true, if_false] at hrun
      cases hrun
      refine iff_of_false ?_ ?_
      · rintro ⟨⟨e', he'⟩, -⟩
        cases he'
        cases hexc
      · rintro ⟨⟨-, e', he', hexc'⟩, -⟩
        cases he'
        rw [hexc] at hexc'
        cases hexc'
    | true =>
      cases hcheckpoint : d.checkpointFailurePolicy with
      | failClosed =>
        simp only [hexc, hcheckpoint, if_true, reduceCtorEq, if_false] at hrun
        cases hrun
        refine iff_of_false ?_ ?_
        · rintro ⟨⟨e', he'⟩, -⟩
          cases he'
        · rintro ⟨⟨hlog, -⟩, -⟩
          cases hlog
      | logAndContinue =>
        simp only [hexc, hcheckpoint, if_true] at hrun
        obtain ⟨rfl, rfl⟩ : r = r' ∧ w' = w₂ := Prod.mk.inj (hrun.symm.trans hhooks)
        constructor
        · rintro ⟨hdelivery, -⟩
          exact ⟨⟨rfl, e, rfl, hexc⟩, hraised.mp hdelivery⟩
        · rintro ⟨-, hquiet⟩
          exact ⟨hraised.mpr hquiet, hstored'.trans hstored⟩

end Quietly

/-- The commit of a batch with an unrouted record stops the run as it should exactly when the records
before it are committed without a trace. -/
theorem run_commitOutcomes_unrouted (hpolicy : d.sinkFailurePolicy = .failClosed)
    (h : Environment α χ) {checkpoint : Option χ} (handled rest : List (CommitOutcome χ))
    (hhandled : ∀ o ∈ handled, o.isUnrouted = false ∧ o.Carries checkpoint) (exc : Exc)
    {w w' : RunWorld ℓ α χ} {r : Outcome Exc Unit}
    (hrun : (d.commitOutcomes (handled ++ .erroredUnrouted exc :: rest)).run h w = (r, w')) :
    ((∃ e, r = .raised (.recordDelivery e)) ∧ stored w'.trace = stored w.trace) ↔
      d.CommitsQuietly h w checkpoint handled := by
  obtain ⟨pending, s₁, hcounted, hhooks, hcount⟩ :=
    run_commitOutcomesFrom_handled h handled (.erroredUnrouted exc :: rest) hhandled .empty w
  have hfinish : (d.commitOutcomesFrom pending (.erroredUnrouted exc :: rest) :
      Delivery ℓ α χ Unit) = d.persistPending pending.checkpoint >>= fun _ =>
        runHooks (handled.flatMap CommitOutcome.hooks) >>= fun _ => raiseRecordDelivery exc := by
    unfold commitOutcomesFrom finishCommit
    rw [bind_assoc, if_pos hpolicy, hhooks]
    rfl
  unfold commitOutcomes at hrun
  rw [hcounted, hfinish] at hrun
  rcases hcount with ⟨hnot, hnone⟩ | ⟨v, size, rfl, hdue, hpending⟩
  · -- no save falls due, and only the hooks are left
    have hempty : pending.checkpoint = none := hnone
    rw [hempty] at hrun
    obtain ⟨r', w₂, hrun', hstored, hraised⟩ :=
      run_hooks_raise h (handled.flatMap CommitOutcome.hooks) exc (w.write s₁)
    obtain ⟨rfl, rfl⟩ : r = r' ∧ w' = w₂ := Prod.mk.inj (hrun.symm.trans hrun')
    rw [commitsQuietly_of_not_due hnot]
    exact (and_iff_left hstored).trans hraised
  · -- the save that falls due is attempted first
    rw [hpending] at hrun
    obtain ⟨ra, ta, hra, hattempt, hstored⟩ := d.run_attemptSave (ℓ := ℓ) h v hdue.1 w
    rw [commitsQuietly_of_due hdue (hattempt w.state)]
    exact run_persist_hooks hstored hra (hattempt s₁) size _ exc hrun

/-- Committing outcomes leaves no unrouted error. -/
theorem commitOutcomes_unroutedErrors (h : Environment α χ) (outcomes : List (CommitOutcome χ))
    (w : RunWorld ℓ α χ) :
    unroutedErrors ((d.commitOutcomes outcomes).run h w).2.trace = unroutedErrors w.trace := by
  have hsilent : (d.commitOutcomes outcomes : Delivery ℓ α χ Unit).Safe
      (.alone (fun _ _ => True) (fun _ _ => True) False)
      (fun _ _ w' => unroutedErrors w'.trace = unroutedErrors w.trace)
      (fun _ _ w' => unroutedErrors w'.trace = unroutedErrors w.trace) w w :=
    safe_silent (d.within_commitOutcomesFrom _ _)
  obtain ⟨t, -, hpost⟩ := hsilent.run_alone h
  have hend := (hpost (along_iff.mpr fun _ _ _ _ => trivial)).2
  cases hrun : (d.commitOutcomes outcomes : Delivery ℓ α χ Unit).run h w with
  | mk r w' =>
    rw [hrun] at hend
    cases r with
    | returned u => exact hend.elim fun _ h => h
    | raised e => exact hend.elim fun _ h => h
    | hung => exact hend.elim

end Due

section Main

variable [DecidableEq α] [DecidableEq χ] {d}

/-- If a failure of the sink was not captured, then the batch write has raised a
`RecordDeliveryError` and the store has taken no checkpoint for the batch. -/
def StopsAtUnrouted (w : RunWorld ℓ α χ) (r : Outcome Exc Unit) (w' : RunWorld ℓ α χ) : Prop :=
  unroutedErrors w'.trace ≠ unroutedErrors w.trace →
    (∃ exc, r = .raised (.recordDelivery exc)) ∧ stored w'.trace = stored w.trace

omit [DecidableEq α] [DecidableEq χ] in
/-- The outcomes before the first unrouted one. -/
theorem exists_first_unrouted {outcomes : List (CommitOutcome χ)}
    (h : outcomes.any CommitOutcome.isUnrouted = true) :
    ∃ handled exc rest, outcomes = handled ++ .erroredUnrouted exc :: rest ∧
      ∀ o ∈ handled, o.isUnrouted = false := by
  induction outcomes with
  | nil => cases h
  | cons outcome outcomes ih =>
    have hrest : outcome.isUnrouted = false →
        ∃ handled exc rest, outcome :: outcomes = handled ++ .erroredUnrouted exc :: rest ∧
          ∀ o ∈ handled, o.isUnrouted = false := by
      intro houtcome
      rw [List.any_cons, houtcome, Bool.false_or] at h
      obtain ⟨handled, exc, rest, rfl, hhandled⟩ := ih h
      refine ⟨outcome :: handled, exc, rest, rfl, fun o ho => ?_⟩
      rcases List.mem_cons.mp ho with rfl | ho
      · exact houtcome
      · exact hhandled o ho
    cases outcome with
    | erroredUnrouted exc => exact ⟨[], exc, outcomes, rfl, nofun⟩
    | written c onSuccess => exact hrest rfl
    | dropped c onSuccess => exact hrest rfl
    | erroredRouted c onSuccess => exact hrest rfl

/-- Under `FAIL_CLOSED` and with a dead-letter sink whose failures do not raise, a batch with a record
that is errored and not routed stops the run without a save exactly when the records handled before
the first such record are committed quietly. -/
theorem writeBatchResult_stops_iff (hpolicy : d.sinkFailurePolicy = .failClosed)
    (result : BatchProcessResult α) (hresult : result.failure = none) (rawBatch : List α)
    (checkpoint : Option χ) (h : Environment α χ) (w : RunWorld ℓ α χ) {r : Outcome Exc Unit}
    {w' : RunWorld ℓ α χ}
    (hrun : (d.writeBatchResult result rawBatch checkpoint).run h w = (r, w'))
    (hdlq : ∀ t, w'.trace = w.trace ++ t → ∀ raised ∈ unroutedErrors t, raised = false) :
    StopsAtUnrouted w r w' ↔
      ∀ handled exc rest w₁,
        (d.batchOutcomes result rawBatch checkpoint).run h w =
          (.returned (some (handled ++ .erroredUnrouted exc :: rest)), w₁) →
        (∀ o ∈ handled, o.isUnrouted = false) → d.CommitsQuietly h w₁ checkpoint handled := by
  rw [d.writeBatchResult_eq hresult] at hrun
  have hfirst : (d.batchOutcomes result rawBatch checkpoint).Safe (resolveContract ℓ)
      (fun outcomes _ => Resolved checkpoint w outcomes) (fun e _ => EndsUnrouted w e) w w :=
    safe_batchOutcomes_resolves d hpolicy result rawBatch checkpoint
  obtain ⟨t₁, ht₁, hpost⟩ := hfirst.run_alone h
  have hextends : ((d.batchOutcomes result rawBatch checkpoint).run h w).2.trace <+: w'.trace := by
    have happend := trace_prefix_run_bind h w (d.batchOutcomes result rawBatch checkpoint) d.commitBatch
    rw [hrun] at happend
    exact happend
  have hanswers : Along DlqAnswers w.trace t₁ := by
    obtain ⟨t₂, ht₂⟩ := hextends
    rw [ht₁, List.append_assoc] at ht₂
    exact along_dlqAnswers _ (hdlq _ ht₂.symm)
  have hend := (hpost hanswers).2
  rw [run_bind] at hrun
  cases hbatch : (d.batchOutcomes result rawBatch checkpoint).run h w with
  | mk r₁ w₁ =>
    rw [hbatch] at hrun hend
    cases r₁ with
    | hung => exact hend.elim
    | raised e =>
      obtain ⟨-, hends⟩ := hend
      cases hrun
      refine iff_of_true (fun hne => ?_) fun handled exc rest w₂ heq => ?_
      · obtain ⟨⟨exc, rfl⟩, hstored⟩ := hends.resolve_left hne
        exact ⟨⟨exc, rfl⟩, hstored⟩
      · cases heq
    | returned outcomes =>
      obtain ⟨-, hresolved⟩ := hend
      cases outcomes with
      | none =>
        cases hrun
        exact iff_of_true (fun hne => absurd hresolved hne) fun _ _ _ _ heq => by cases heq
      | some outcomes =>
        obtain ⟨hresolves, hcarries⟩ := hresolved
        replace hrun : (d.commitOutcomes outcomes).run h w₁ = (r, w') := hrun
        have hsilent : unroutedErrors w'.trace = unroutedErrors w₁.trace := by
          have hcommit := commitOutcomes_unroutedErrors h outcomes w₁ (d := d)
          rw [hrun] at hcommit
          exact hcommit
        have hfailed := hresolves.failed_iff
        rw [← hsilent] at hfailed
        have hcut : ∀ {handled exc rest}, outcomes = handled ++ .erroredUnrouted exc :: rest →
            (∀ o ∈ handled, o.isUnrouted = false) →
            (((∃ e, r = .raised (.recordDelivery e)) ∧ stored w'.trace = stored w.trace) ↔
              d.CommitsQuietly h w₁ checkpoint handled) := by
          rintro handled exc rest rfl hhandled
          rw [← hresolves.stored]
          exact run_commitOutcomes_unrouted hpolicy h handled rest (fun o ho =>
            ⟨hhandled o ho, hcarries o (List.mem_append_left _ ho)⟩) exc hrun
        constructor
        · intro hstops handled exc rest w₂ heq hhandled
          obtain ⟨hoc, rfl⟩ : some outcomes = some (handled ++ .erroredUnrouted exc :: rest) ∧
              w₁ = w₂ := by
            cases heq
            exact ⟨rfl, rfl⟩
          refine (hcut (Option.some.inj hoc) hhandled).mp (hstops (hfailed.mp ?_))
          rw [Option.some.inj hoc]
          simp [CommitOutcome.isUnrouted]
        · intro hquiet hne
          obtain ⟨handled, exc, rest, rfl, hhandled⟩ := exists_first_unrouted (hfailed.mpr hne)
          exact (hcut rfl hhandled).mpr (hquiet handled exc rest w₁ rfl hhandled)

end Main

end DeliveryEngine

/-! ## A batch whose second record fails -/

/-- The writer writes the first record of the batch and reports an error for the second. -/
def failingSecond : Environment ℕ ℕ
  | _, .await (.writeBatch [1, 2]) => .ok [⟨true, []⟩, ⟨false, [.runtimeError "rejected"]⟩]
  | t, o => undisturbed t o

/-- The start of a run. -/
def atStart : RunWorld Unit ℕ ℕ := ⟨RunState.initial () none, []⟩

/-- The write of the batch, with no dead-letter sink, by an engine that saves every so many records. -/
def secondFails (every : ℕ) (hevery : 0 < every) : Outcome Exc Unit × RunWorld Unit ℕ ℕ :=
  ({ DeliveryEngine.standard false with
      checkpointEvery := every
      checkpointEvery_pos := hevery }.writeBatchResult ⟨[some 1, some 2], true, none⟩ [1, 2]
    (some 20)).run failingSecond atStart

/-- With a save every three records none falls due for the first record, and the batch stops the run
without a save. -/
theorem writeBatchResult_stops_three :
    (secondFails 3 (by decide)).1 = .raised (.recordDelivery (.runtimeError "rejected")) ∧
      DeliveryEngine.StopsAtUnrouted atStart (secondFails 3 (by decide)).1
        (secondFails 3 (by decide)).2 := by
  refine ⟨rfl, (DeliveryEngine.writeBatchResult_stops_iff rfl _ rfl [1, 2] (some 20) failingSecond
    atStart rfl fun t ht => ?_).mpr fun handled exc rest w₁ hrun hhandled => ?_⟩
  · change (secondFails 3 (by decide)).2.trace = [] ++ t at ht
    rw [List.nil_append] at ht
    rw [← ht]
    decide
  · obtain ⟨hresolved, rfl⟩ := Prod.mk.inj hrun
    have houtcomes : [.written (some 20) [], .erroredUnrouted (.runtimeError "rejected")] =
        handled ++ .erroredUnrouted exc :: rest := Option.some.inj (Outcome.returned.inj hresolved)
    obtain rfl : handled = [.written (some 20) []] := by
      rcases handled with _ | ⟨first, _ | ⟨second, handled⟩⟩
      · cases houtcomes
      · obtain ⟨hfirst, -⟩ := List.cons.inj houtcomes
        rw [hfirst]
      · obtain ⟨-, hrest⟩ := List.cons.inj houtcomes
        obtain ⟨rfl, -⟩ := List.cons.inj hrest
        have hrouted := hhandled _ (List.mem_cons_of_mem _ List.mem_cons_self)
        cases hrouted
    refine (DeliveryEngine.commitsQuietly_of_not_due ?_).mpr fun e hraise => by cases hraise
    rintro ⟨-, v, -, k, hk, hdue⟩
    obtain rfl : k = 0 := Nat.lt_one_iff.mp hk
    cases hdue

/-- With a save for every record, the checkpoint of the whole batch is stored before the run stops at
its second record. -/
theorem not_writeBatchResult_stops_one :
    ¬ DeliveryEngine.StopsAtUnrouted atStart (secondFails 1 (by decide)).1
      (secondFails 1 (by decide)).2 := by
  intro h
  have hstored := (h (by decide)).2
  exact absurd hstored (by decide)

end AgoraEtl
