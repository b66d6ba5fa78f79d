import AgoraEtl.Delivery.PartialFailure
import AgoraEtl.Lanes.Frame

/-!
# Arrow batches that fail

An Arrow batch fails when its middleware failed or when its write raises, and the two finalizers of
the lane then capture its rows in the dead-letter queue, if there is one.  Without a dead-letter sink
they count the rows as routed: the checkpoint of the batch is saved and the run goes on.  A
`FenceLostError` of the write is treated like any other exception.
`finalizeArrow_failsClosed_iff` says exactly when a batch whose rows were not all captured stops the
run with its failure and without a save.
-/

namespace AgoraEtl

open Effect Program

variable {ℓ α χ : Type}

/-! ## What was captured -/

/-- The records that the dead-letter sink has taken, in their order. -/
def deadLetters (t : RunTrace α χ) : List (DLQRecord α χ) :=
  t.filterMap fun
    | .called (.await (.dlqWrite record)) (.ok _) => some record
    | _ => none

/-- The dead letters of two parts of a run follow one another. -/
@[simp] theorem deadLetters_append (t t' : RunTrace α χ) :
    deadLetters (t ++ t') = deadLetters t ++ deadLetters t' := List.filterMap_append

/-- A mark is no dead letter. -/
@[simp] theorem deadLetters_mark (m : Mark α χ) : deadLetters [.mark m] = [] := rfl

/-- The dead-letter sink has taken every one of the rows since the first trace. -/
def RowsRouted (d : DeliveryEngine α χ) (rows : List α) (t t' : RunTrace α χ) : Prop :=
  ∃ letters, deadLetters t' = deadLetters t ++ letters ∧
    letters.map DLQRecord.originalRecord = rows.map fun row => some (d.redact Redactor.record row)

/-- Each routed row adds one dead letter. -/
theorem RowsRouted.length {d : DeliveryEngine α χ} {rows : List α} {t t' : RunTrace α χ}
    (h : RowsRouted d rows t t') :
    (deadLetters t').length = (deadLetters t).length + rows.length := by
  obtain ⟨letters, ht', hrows⟩ := h
  have hlength : letters.length = rows.length := by
    have hmap := congrArg List.length hrows
    rwa [List.length_map, List.length_map] at hmap
  rw [ht', List.length_append, hlength]

/-- Where no dead letter was added, no rows were routed. -/
theorem rowsRouted_iff_of_eq {d : DeliveryEngine α χ} {rows : List α} {t t' : RunTrace α χ}
    (h : deadLetters t' = deadLetters t) : RowsRouted d rows t t' ↔ rows = [] := by
  constructor
  · intro hrouted
    have hlength := hrouted.length
    rw [h] at hlength
    exact List.length_eq_zero_iff.mp (by omega)
  · rintro rfl
    exact ⟨[], by rw [h, List.append_nil], rfl⟩

/-- Nothing that is stored or captured is touched. -/
structure Untouched (w w' : RunWorld ℓ α χ) : Prop where
  stored : AgoraEtl.stored w'.trace = AgoraEtl.stored w.trace
  deadLetters : AgoraEtl.deadLetters w'.trace = AgoraEtl.deadLetters w.trace

namespace Untouched

variable {w w' w'' : RunWorld ℓ α χ}

/-- Doing nothing touches nothing. -/
theorem refl (w : RunWorld ℓ α χ) : Untouched w w := ⟨rfl, rfl⟩

/-- Untouched stays untouched. -/
theorem trans (h : Untouched w w') (h' : Untouched w' w'') : Untouched w w'' :=
  ⟨h'.stored.trans h.stored, h'.deadLetters.trans h.deadLetters⟩

/-- Only the state has changed. -/
theorem of_trace (h : Untouched w w') (htrace : w''.trace = w'.trace) : Untouched w w'' :=
  ⟨by rw [htrace, h.stored], by rw [htrace, h.deadLetters]⟩

/-- A mark touches neither the checkpoint state nor the dead letters. -/
theorem mark (h : Untouched w w') (m : Mark α χ) : Untouched w (w'.mark m) := by
  refine ⟨?_, ?_⟩
  · rw [World.mark_trace, stored_append, stored_mark, List.append_nil, h.stored]
  · rw [World.mark_trace, deadLetters_append, deadLetters_mark, List.append_nil, h.deadLetters]

/-- The call neither saves a checkpoint nor writes a dead letter. -/
theorem called (h : Untouched w w') (o : Call α χ) (r : o.Ret)
    (hstored : AgoraEtl.stored [.called o r] = [])
    (hletters : AgoraEtl.deadLetters [.called o r] = []) : Untouched w (w'.called o r) := by
  refine ⟨?_, ?_⟩
  · rw [World.called_trace, stored_append, hstored, List.append_nil, h.stored]
  · rw [World.called_trace, deadLetters_append, hletters, List.append_nil, h.deadLetters]

end Untouched

/-- Capturing a failure for the records, or failing to: nothing is stored, and if all of it was
captured, then the dead-letter sink has taken every record. -/
structure Captures (d : DeliveryEngine α χ) (records : List α) (all : Bool) (w w' : RunWorld ℓ α χ) :
    Prop where
  stored : AgoraEtl.stored w'.trace = AgoraEtl.stored w.trace
  deadLetters : ∃ letters, AgoraEtl.deadLetters w'.trace = AgoraEtl.deadLetters w.trace ++ letters ∧
    if all then letters.map DLQRecord.originalRecord =
        records.map fun record => some (d.redact Redactor.record record)
      else letters.length < records.length

namespace Captures

variable {d : DeliveryEngine α χ} {w w' w'' : RunWorld ℓ α χ} {all all' : Bool} {record : α}
  {records : List α}

/-- Not even one record was captured. -/
theorem of_untouched (h : Untouched w w') : Captures d (record :: records) false w w' :=
  ⟨h.stored, [], by rw [h.deadLetters, List.append_nil], Nat.succ_pos _⟩

/-- Of rows of which only the first so many were attempted, all have been captured exactly when no
attempt failed and every row was attempted. -/
theorem rowsRouted_iff {n : ℕ} (h : Captures d (records.take n) all w w') :
    RowsRouted d records w.trace w'.trace ↔ all = true ∧ records.length ≤ n := by
  obtain ⟨letters, ht, hletters⟩ := h.deadLetters
  have htake : (records.take n).length = min n records.length := List.length_take
  constructor
  · intro hrouted
    have hlength := hrouted.length
    rw [ht, List.length_append] at hlength
    cases all with
    | true =>
      have hmap : (letters.map DLQRecord.originalRecord).length = _ := congrArg List.length hletters
      rw [List.length_map, List.length_map] at hmap
      exact ⟨rfl, by omega⟩
    | false =>
      have hlt : letters.length < (records.take n).length := hletters
      omega
  · rintro ⟨rfl, hle⟩
    rw [List.take_of_length_le hle] at hletters
    exact ⟨letters, ht, hletters⟩

/-- Where an attempt failed there was a row. -/
theorem ne_nil {n : ℕ} (h : Captures d (records.take n) false w w') : records ≠ [] := by
  rintro rfl
  obtain ⟨letters, -, hlt⟩ := h.deadLetters
  rw [List.take_nil] at hlt
  exact Nat.not_lt_zero _ hlt

/-- Captures of records follow one another; all are captured if each part is. -/
theorem cons (h : Captures d [record] all w w') (h' : Captures d records all' w' w'') :
    Captures d (record :: records) (all && all') w w'' := by
  obtain ⟨letters, ht, hletters⟩ := h.deadLetters
  obtain ⟨letters', ht', hletters'⟩ := h'.deadLetters
  refine ⟨h'.stored.trans h.stored, letters ++ letters', ?_, ?_⟩
  · rw [ht', ht, List.append_assoc]
  · have hle : ∀ {b : Bool} {l : List (DLQRecord α χ)} {rs : List α},
        (if b then l.map DLQRecord.originalRecord =
            rs.map fun record => some (d.redact Redactor.record record)
          else l.length < rs.length) → l.length ≤ rs.length := by
      intro b l rs hl
      cases b with
      | true =>
        have hmap : (l.map DLQRecord.originalRecord).length = _ := congrArg List.length hl
        rw [List.length_map, List.length_map] at hmap
        exact hmap.le
      | false => exact le_of_lt hl
    have hle₁ : letters.length ≤ 1 := hle hletters
    have hle₂ : letters'.length ≤ records.length := hle hletters'
    cases all with
    | false =>
      have hlt : letters.length < 1 := hletters
      change (letters ++ letters').length < records.length + 1
      rw [List.length_append]
      omega
    | true =>
      cases all' with
      | false =>
        have hlt : letters'.length < records.length := hletters'
        change (letters ++ letters').length < records.length + 1
        rw [List.length_append]
        omega
      | true =>
        have hone : letters.map DLQRecord.originalRecord =
            [some (d.redact Redactor.record record)] := hletters
        have hrest : letters'.map DLQRecord.originalRecord =
            records.map fun record => some (d.redact Redactor.record record) := hletters'
        change (letters ++ letters').map DLQRecord.originalRecord = _
        rw [List.map_append, hone, hrest]
        rfl

end Captures

/-! ## Programs that capture, save and write -/

section Programs

variable {assume : RunTrace α χ → Event (Call α χ) Call.Ret (Mark α χ) → Prop}
  {w₀ w : RunWorld ℓ α χ} (d : DeliveryEngine α χ)

/-- Validating the fence touches nothing. -/
theorem safe_assertRunFenceActive_untouched :
    (d.assertRunFenceActive : Delivery ℓ α χ Unit).Safe (.alone assume (fun _ _ => True) False)
      (fun _ _ w' => Untouched w w') (fun _ _ w' => Untouched w w') w₀ w :=
  d.safe_assertRunFenceActive_of (Untouched.refl w) fun _ => (Untouched.refl w).called _ _ rfl rfl

/-- An attempt that succeeds has sent the dead letter of its record. -/
theorem safe_attemptDlqWrite_captures (stage : String) (exc : Exc) (record : α)
    (processed : Option α) (checkpoint : Option χ) (middleware : Option String) :
    (d.attemptDlqWrite stage exc record processed checkpoint middleware : Delivery ℓ α χ Unit).Safe
      (.alone assume (fun _ _ => True) False)
      (fun _ _ w' => Captures d [record] true w w') (fun _ _ w' => Untouched w w') w₀ w := by
  refine d.safe_attemptDlqWrite_of (Untouched.refl w) (fun _ => (Untouched.refl w).called _ _ rfl rfl)
    (fun _ hw' => hw'.called _ _ rfl rfl) (fun hw' => hw') (fun {w'} value hw' => ?_)
    fun _ _ hw' => hw'.called _ _ rfl rfl
  refine ⟨?_, [d.dlqRecord stage exc (some record) (some record) processed value middleware], ?_, rfl⟩
  · rw [World.called_trace, stored_append, stored_called rfl, List.append_nil, hw'.stored]
  · rw [World.called_trace, deadLetters_append, hw'.deadLetters]
    rfl

/-- The step lemma: capturing the failure of one record. -/
theorem safe_writeToDlq_captures (stage : String) (exc : Exc) (record : α)
    (processed : Option α) (checkpoint : Option χ) (middleware : Option String) :
    (d.writeToDlq stage exc record processed checkpoint middleware : Delivery ℓ α χ Bool).Safe
      (.alone assume (fun _ _ => True) False)
      (fun routed _ w' => Captures d [record] routed w w')
      (fun _ _ w' => Captures d [record] false w w') w₀ w :=
  d.safe_writeToDlq_of (Untouched.refl w) (fun _ => safe_attemptDlqWrite_captures d _ _ _ _ _ _)
    (fun _ hw' => hw'.of_trace rfl) (fun hw' _ => ⟨trivial, .of_untouched (hw'.mark _)⟩)
    fun hw' _ => ⟨trivial, .of_untouched (hw'.mark _)⟩

/-- The run lemma: capturing one failure of all records. -/
theorem safe_routeAll_captures (stage : String) (exc : Exc) (checkpoint : Option χ)
    (middleware : Option String) (pairs : List (α × Option α)) :
    (d.routeAll stage exc checkpoint middleware pairs : Delivery ℓ α χ Bool).Safe
      (.alone assume (fun _ _ => True) False)
      (fun routed _ w' => Captures d (pairs.map Prod.fst) routed w w')
      (fun _ _ w' => Captures d (pairs.map Prod.fst) false w w') w₀ w := by
  induction pairs generalizing w₀ w with
  | nil => exact ⟨rfl, [], by rw [List.append_nil], rfl⟩
  | cons pair pairs ih =>
    unfold DeliveryEngine.routeAll
    rw [safe_bind]
    refine (safe_writeToDlq_captures d _ _ _ _ _ _).mono (fun ok _ w' hw' => ?_)
      fun _ _ w' hw' => ?_
    · rw [safe_bind]
      refine ih.mono (fun routed _ w'' hw'' => hw'.cons hw'') fun _ _ w'' hw'' => ?_
      have h := hw'.cons hw''
      rwa [Bool.and_false] at h
    · obtain ⟨letters, ht, hlt⟩ := hw'.deadLetters
      refine ⟨hw'.stored, letters, ht, ?_⟩
      have hone : letters.length < 1 := hlt
      change letters.length < (pairs.map Prod.fst).length + 1
      omega

/-- An error of saving a checkpoint is not that of a failed batch. -/
def Exc.IsSaveError (exc : Exc) : Prop := (∃ e, exc = .checkpointSave e) ∨ exc.isException = false

omit w₀ w d in
/-- The error of a save is neither a lost fence nor a delivery error. -/
theorem Exc.IsSaveError.ne_failure {exc : Exc} (h : exc.IsSaveError) :
    exc.isFenceLost = false ∧ ∀ e, exc ≠ .recordDelivery e := by
  rcases h with ⟨e, rfl⟩ | hexc
  · exact ⟨rfl, nofun⟩
  · cases exc with
    | cancelled => exact ⟨rfl, nofun⟩
    | keyboardInterrupt => exact ⟨rfl, nofun⟩
    | _ => cases hexc

/-- Saving a checkpoint captures nothing and raises errors of its own only. -/
theorem safe_persistCheckpoint_raises (checkpoint : Checkpoint χ) (batchSize : ℕ) :
    (d.persistCheckpoint checkpoint batchSize : Delivery ℓ α χ Unit).Safe
      (.alone assume (fun _ _ => True) False)
      (fun _ _ w' => deadLetters w'.trace = deadLetters w.trace)
      (fun e _ w' => deadLetters w'.trace = deadLetters w.trace ∧ e.IsSaveError) w₀ w := by
  unfold DeliveryEngine.persistCheckpoint
  rw [safe_bind]
  refine Safe.mono (Q := fun _ _ w' => deadLetters w'.trace = deadLetters w.trace)
    (fun saved _ w' hw' => ?_) (fun _ _ _ he => he) ?_
  · -- the state is updated after the attempt, whatever it came to
    rw [safe_bind, safe_modify]
    cases saved with
    | true => exact hw'
    | false => exact hw'
  · -- the attempt, and what the handler makes of its exception
    rw [safe_catchException, safe_bind]
    have hfailed : ∀ (exc : Exc) {w₀ w' : RunWorld ℓ α χ},
        deadLetters w'.trace = deadLetters w.trace →
        if exc.isException then
          (do
            modify fun s : RunState ℓ α χ => { s with
              metrics := { s.metrics with
                checkpointFailureCount := s.metrics.checkpointFailureCount + 1 } }
            if d.checkpointFailurePolicy = .logAndContinue then pure false
            else raise (.checkpointSave exc) : Delivery ℓ α χ Bool).Safe
            (.alone assume (fun _ _ => True) False)
            (fun _ _ w' => deadLetters w'.trace = deadLetters w.trace)
            (fun e _ w' => deadLetters w'.trace = deadLetters w.trace ∧ e.IsSaveError) w₀ w'
        else deadLetters w'.trace = deadLetters w.trace ∧ exc.IsSaveError := by
      intro exc w₀ w' hw'
      split
      · rw [safe_bind, safe_modify]
        split
        · exact hw'
        · exact ⟨hw', .inl ⟨exc, rfl⟩⟩
      · rename_i hexc
        exact ⟨hw', .inr (Bool.eq_false_iff.mpr hexc)⟩
    refine (safe_assertRunFenceActive_untouched d).mono (fun _ _ w₁ hw₁ => ?_)
      fun exc _ w₁ hw₁ => hfailed exc hw₁.deadLetters
    cases d.checkpointStore with
    | false =>
      exact hfailed (.runtimeError "checkpoint_store is None — cannot persist checkpoint")
        hw₁.deadLetters
    | true =>
      simp only [Bool.true_eq_false, if_false]
      rw [safe_bind]
      refine safe_invoke.mpr fun r _ => ?_
      have hcalled : deadLetters (w₁.called (.await (.saveCheckpoint d.checkpointKey checkpoint)) r).trace =
          deadLetters w.trace := by
        rw [World.called_trace, deadLetters_append, hw₁.deadLetters]
        exact List.append_nil _
      refine ⟨trivial, ?_⟩
      cases r with
      | ok u => exact hcalled
      | error exc => exact hfailed exc hcalled

/-- A save sends no dead letter, and raises only its own errors. -/
theorem safe_saveBatchCheckpoint_raises [DecidableEq χ] (checkpoint : Option χ) (batchSize : ℕ) :
    (d.saveBatchCheckpoint checkpoint batchSize : Delivery ℓ α χ Unit).Safe
      (.alone assume (fun _ _ => True) False)
      (fun _ _ w' => deadLetters w'.trace = deadLetters w.trace)
      (fun e _ w' => deadLetters w'.trace = deadLetters w.trace ∧ e.IsSaveError) w₀ w := by
  unfold DeliveryEngine.saveBatchCheckpoint
  split
  · split
    · exact rfl
    · unfold DeliveryEngine.countProcessed
      rw [safe_bind, safe_bind]
      refine safe_modify_of fun w₁ hstate htrace => ?_
      rw [safe_bind, safe_read]
      split
      · refine (safe_persistCheckpoint_raises d _ _).mono (fun _ _ _ h => ?_) fun _ _ _ h => ?_
        · rwa [htrace] at h
        · rwa [htrace] at h
      · rw [pure_eq_ret, safe_ret]
        exact congrArg deadLetters htrace
  · exact rfl

/-- Writing the rows of an Arrow batch neither saves a checkpoint nor captures a failure. -/
theorem safe_writeArrowRows_untouched (c : ExecutionCoordinator α χ) (rows : List α) :
    (c.writeArrowRows rows : Delivery ℓ α χ Unit).Safe (.alone assume (fun _ _ => True) False)
      (fun _ _ w' => Untouched w w') (fun _ _ w' => Untouched w w') w₀ w := by
  have hcount : ∀ {w₀ w' : RunWorld ℓ α χ}, Untouched w w' →
      (do incWritten rows.length; consume 0 : Delivery ℓ α χ Unit).Safe
        (.alone assume (fun _ _ => True) False)
        (fun _ _ w' => Untouched w w') (fun _ _ w' => Untouched w w') w₀ w' := by
    intro w₀ w' hw'
    unfold incWritten consume incConsumed hotFlush
    rw [safe_bind]
    refine safe_modify_of fun w₁ _ htrace₁ => ?_
    rw [safe_bind, safe_bind]
    refine safe_modify_of fun w₂ _ htrace₂ => ?_
    rw [safe_bind, safe_read]
    simp only [pure_eq_ret, safe_ret]
    have hw₂ : Untouched w w₂ := (hw'.of_trace htrace₁).of_trace htrace₂
    split
    · exact safe_modify_of fun w₃ _ htrace₃ => hw₂.of_trace htrace₃
    · exact hw₂
  unfold ExecutionCoordinator.writeArrowRows
  split
  · unfold DeliveryEngine.writeArrowBatch
    rw [safe_bind, safe_bind]
    refine (safe_assertRunFenceActive_untouched _).mono (fun _ _ w₁ hw₁ => ?_) fun _ _ _ h => h
    rw [safe_bind]
    refine safe_invoke.mpr fun r _ => ⟨trivial, ?_⟩
    have hw₂ : Untouched w (w₁.called (.await (.writeArrowBatch rows)) r) :=
      hw₁.called (.await (.writeArrowBatch rows)) r rfl rfl
    cases r with
    | error exc => exact hw₂
    | ok u => exact safe_modify_of fun w₃ _ htrace₃ => hcount (hw₂.of_trace htrace₃)
  · unfold DeliveryEngine.writeBatch
    rw [safe_bind, safe_bind]
    refine (safe_assertRunFenceActive_untouched _).mono (fun _ _ w₁ hw₁ => ?_) fun _ _ _ h => h
    rw [safe_bind]
    refine safe_invoke.mpr fun r _ => ⟨trivial, ?_⟩
    have hw₂ : Untouched w (w₁.called (.await (.writeBatch rows)) r) :=
      hw₁.called (.await (.writeBatch rows)) r rfl rfl
    cases r with
    | error exc => exact hw₂
    | ok results =>
      dsimp only
      rw [safe_bind]
      refine safe_modify_of fun w₃ _ htrace₃ => ?_
      have hw₃ : Untouched w w₃ := hw₂.of_trace htrace₃
      rw [pure_eq_ret, safe_ret]
      cases (results.flatMap WriteResult.errors).head? with
      | some firstError => exact hw₃
      | none =>
        dsimp only
        split
        · exact hcount hw₃
        · exact hw₃

end Programs

/-! ## Failed batches -/

/-- Why an Arrow batch failed: a middleware failed, or the write of the rows raised. -/
inductive ArrowFailure (α : Type) : Type where
  | middleware (failure : BatchFailure)
  | write (exc : Exc) (rows : List α)

namespace ArrowFailure

/-- The exception of the failure. -/
def exception : ArrowFailure α → Exc
  | middleware failure => failure.exception
  | write exc _ => exc

/-- The write was ended by an error that is no `Exception`; the lane does not handle it. -/
def isUnhandled : ArrowFailure α → Bool
  | middleware _ => false
  | write exc _ => !exc.isException

/-- How many rows had failed. -/
def rowCount (batch : SourceBatch α χ) : ArrowFailure α → ℕ
  | middleware _ => batch.rows.length
  | write _ rows => rows.length

/-- The exception with which a run stops at the failure: a lost fence and errors that are no
`Exception` are raised as they are. -/
def stopsWith (failure : ArrowFailure α) : Exc :=
  if failure.isUnhandled || failure.exception.isFenceLost then failure.exception
  else .recordDelivery failure.exception

end ArrowFailure

namespace ExecutionCoordinator

variable (c : ExecutionCoordinator α χ)

/-- The rows that the batch hands to the writer; without a result of the chain, these are its own. -/
def arrowRows (batch : SourceBatch α χ) :
    Option (MiddlewareChain.ArrowProcessResult α) → Option (List α)
  | none => some batch.rows
  | some result => if result.failure.isSome || result.rows.isEmpty then none else some result.rows

/-- The batch fails, and so far the run has come to the last world. -/
def ArrowFails (h : Environment α χ) (w : RunWorld ℓ α χ) (batch : SourceBatch α χ)
    (outcome : Option (MiddlewareChain.ArrowProcessResult α)) :
    ArrowFailure α → RunWorld ℓ α χ → Prop
  | .middleware failure, w₁ => (∃ result, outcome = some result ∧ result.failure = some failure) ∧
      w₁ = w.mark (.finalizing batch)
  | .write exc rows, w₁ => arrowRows batch outcome = some rows ∧
      (c.writeArrowRows rows).run h (w.mark (.finalizing batch)) = (.raised exc, w₁)

/-- What the lane does with the failed rows when a dead-letter sink is configured. -/
def captureArrow (batch : SourceBatch α χ) : ArrowFailure α → Delivery ℓ α χ Bool
  | .middleware failure => do
    countErrored batch.rows.length
    c.delivery.routeAll "batch_middleware" failure.exception batch.checkpoint
      (some failure.middleware) (batch.rows.map fun r => (r, none))
  | .write exc rows => do
    countErrored rows.length
    c.delivery.routeAll "sink_write" exc batch.checkpoint none
      ((batch.rows.zip rows).map fun p => (p.1, some p.2))

variable [DecidableEq χ]

/-- The finalizer of an Arrow batch: the lane calls that for passthrough when the chain is empty, and
then there is no result of the chain. -/
def finalizeArrow (batch : SourceBatch α χ) :
    Option (MiddlewareChain.ArrowProcessResult α) → Delivery ℓ α χ Unit
  | none => c.writePassthroughArrowBatch batch
  | some result => c.finalizeArrowBatchResult batch result

/-- A failed batch of which not every row was captured stops the run with its failure, whatever the
lane would go on with, and the store has taken no checkpoint; so does a batch at which the fence was
lost. -/
def FailsClosed (h : Environment α χ) (batch : SourceBatch α χ)
    (outcome : Option (MiddlewareChain.ArrowProcessResult α)) (w : RunWorld ℓ α χ) : Prop :=
  ∀ failure w₁ w', c.ArrowFails h w batch outcome failure w₁ →
    ((c.finalizeArrow batch outcome).run h w).2 = w' →
    ¬ RowsRouted c.delivery batch.rows w₁.trace w'.trace ∨ failure.exception.isFenceLost = true →
    (∀ rest : Delivery ℓ α χ Unit, (c.finalizeArrow batch outcome >>= fun _ => rest).run h w =
      (.raised failure.stopsWith, w')) ∧ stored w'.trace = stored w.trace

/-- The failure is one that the lane does not handle, or it is handled with a dead-letter sink.  For
a lost fence the dead-letter writer has to raise it again.  For any other failure it must not raise,
and as many rows must have failed as the source has sent; it does no harm if there are more of them
and all rows of the source were captured, or if the source has sent none. -/
def StopsSafely (h : Environment α χ) (batch : SourceBatch α χ) (failure : ArrowFailure α)
    (w₁ : RunWorld ℓ α χ) : Prop :=
  failure.isUnhandled = true ∨
    if failure.exception.isFenceLost then
      c.delivery.dlqSink = true ∧
        ((c.captureArrow batch failure).run h w₁).1 = .raised failure.exception
    else
      batch.rows = [] ∨ c.delivery.dlqSink = true ∧
        match ((c.captureArrow batch failure).run h w₁).1 with
        | .returned routed => failure.rowCount batch = batch.rows.length ∨
            (routed = true ∧ batch.rows.length < failure.rowCount batch)
        | .raised exc => exc = .recordDelivery failure.exception
        | .hung => False

/-! ## What the finalizers do at a failure -/

/-- The end of a finalizer that goes on: the checkpoint of the batch is saved. -/
def settleArrow (batch : SourceBatch α χ) : Delivery ℓ α χ Unit := do
  c.delivery.saveBatchCheckpoint batch.checkpoint batch.rows.length
  hotFlush

/-- What a finalizer does after the rows were captured or not. -/
def afterCapture (batch : SourceBatch α χ) (failure : ArrowFailure α) (routed : Bool) :
    Delivery ℓ α χ Unit :=
  if batch.rows.length ≠ failure.rowCount batch then
    raise (DeliveryEngine.zipStrictError batch.rows.length (failure.rowCount batch))
  else if routed then c.settleArrow batch else raiseRecordDelivery failure.exception

/-- What both finalizers do once the batch has failed. -/
def handleArrow (batch : SourceBatch α χ) (failure : ArrowFailure α) : Delivery ℓ α χ Unit :=
  if c.delivery.dlqSink then c.captureArrow batch failure >>= c.afterCapture batch failure
  else countErrored (failure.rowCount batch) >>= fun _ => c.settleArrow batch

variable {c}

/-- Under FAIL_CLOSED a failure of the chain is handled as such a failure. -/
theorem arrowMiddlewareFailed_eq (hpolicy : c.delivery.sinkFailurePolicy = .failClosed)
    (batch : SourceBatch α χ) (failure : BatchFailure) :
    (c.arrowMiddlewareFailed batch failure : Delivery ℓ α χ Unit) =
      c.handleArrow batch (.middleware failure) := by
  have hlog : decide (c.delivery.sinkFailurePolicy = .logAndContinue) = false := by
    rw [hpolicy]
    rfl
  unfold arrowMiddlewareFailed handleArrow captureArrow afterCapture settleArrow ArrowFailure.rowCount
  simp only [hlog, Bool.or_false]
  cases c.delivery.dlqSink with
  | false => rfl
  | true =>
    simp only [if_true, bind_assoc]
    congr 1
    funext _
    congr 1
    funext routed
    rw [if_neg (not_not_intro rfl)]
    cases routed with
    | true => rfl
    | false => rfl

/-- Under FAIL_CLOSED delivering rows is writing them and handling the failure of the write. -/
theorem deliverArrowRows_eq (hpolicy : c.delivery.sinkFailurePolicy = .failClosed)
    (batch : SourceBatch α χ) (rows : List α) :
    (c.deliverArrowRows batch rows : Delivery ℓ α χ Unit) =
      attempt (c.writeArrowRows rows) >>= fun
        | .ok () => c.settleArrow batch
        | .error exc =>
          if exc.isException then c.handleArrow batch (.write exc rows) else raise exc := by
  have hlog : decide (c.delivery.sinkFailurePolicy = .logAndContinue) = false := by
    rw [hpolicy]
    rfl
  unfold deliverArrowRows catchException
  rw [bind_assoc]
  congr 1
  funext written
  cases written with
  | ok u => rfl
  | error exc =>
    dsimp only
    split
    · unfold arrowWriteFailed handleArrow captureArrow afterCapture settleArrow ArrowFailure.rowCount
      simp only [hlog, Bool.or_false]
      cases c.delivery.dlqSink with
      | false => rfl
      | true =>
        simp only [if_true, bind_assoc]
        congr 1
        funext _
        congr 1
        funext routed
        split
        · rfl
        · cases routed with
          | true => rfl
          | false => rfl
    · rfl

/-- Both finalizers handle the failure of the batch in the same way. -/
theorem run_finalizeArrow_handled (hpolicy : c.delivery.sinkFailurePolicy = .failClosed)
    {h : Environment α χ} {w w₁ : RunWorld ℓ α χ} {batch : SourceBatch α χ}
    {outcome : Option (MiddlewareChain.ArrowProcessResult α)} {failure : ArrowFailure α}
    (hfails : c.ArrowFails h w batch outcome failure w₁) :
    (c.finalizeArrow batch outcome).run h w =
      if failure.isUnhandled then (.raised failure.exception, w₁)
      else (c.handleArrow batch failure).run h w₁ := by
  -- a write that raised, in either finalizer
  have hdeliver : ∀ {exc : Exc} {rows : List α},
      (c.writeArrowRows rows).run h (w.mark (.finalizing batch)) = (.raised exc, w₁) →
      (c.deliverArrowRows batch rows).run h (w.mark (.finalizing batch)) =
        if !exc.isException then (.raised exc, w₁)
        else (c.handleArrow batch (.write exc rows)).run h w₁ := by
    intro exc rows hwrite
    rw [deliverArrowRows_eq hpolicy, run_bind, run_attempt, hwrite]
    change (if exc.isException then _ else _ : Delivery ℓ α χ Unit).run h w₁ = _
    cases exc.isException with
    | true => rfl
    | false => rfl
  cases failure with
  | middleware failure =>
    obtain ⟨⟨result, rfl, hresult⟩, rfl⟩ := hfails
    change (c.finalizeArrowBatchResult batch result).run h w =
      (c.handleArrow batch (.middleware failure)).run h _
    unfold finalizeArrowBatchResult
    rw [run_bind, run_note, hresult, ← arrowMiddlewareFailed_eq hpolicy]
  | write exc rows =>
    obtain ⟨hrows, hwrite⟩ := hfails
    refine Eq.trans ?_ (hdeliver hwrite)
    cases outcome with
    | none =>
      obtain rfl : batch.rows = rows := Option.some.inj hrows
      rfl
    | some result =>
      change (if result.failure.isSome || result.rows.isEmpty then none else some result.rows) =
        some rows at hrows
      split at hrows
      · cases hrows
      · rename_i hnot
        obtain rfl : result.rows = rows := Option.some.inj hrows
        obtain ⟨hfailure, hempty⟩ : result.failure = none ∧ result.rows.isEmpty = false := by
          simpa using hnot
        change (c.finalizeArrowBatchResult batch result).run h w = _
        unfold finalizeArrowBatchResult
        rw [run_bind, run_note, hfailure, hempty]
        rfl

/-! ## When the run stops -/

/-- Saving the checkpoint captures nothing and raises no error of the batch. -/
theorem run_settleArrow (h : Environment α χ) (batch : SourceBatch α χ) (w : RunWorld ℓ α χ) :
    deadLetters ((c.settleArrow batch).run h w).2.trace = deadLetters w.trace ∧
      ∀ exc, ((c.settleArrow batch).run h w).1 = .raised exc → exc.IsSaveError := by
  have hsafe : (c.settleArrow batch : Delivery ℓ α χ Unit).Safe (.answered h False)
      (fun _ _ w' => deadLetters w'.trace = deadLetters w.trace)
      (fun e _ w' => deadLetters w'.trace = deadLetters w.trace ∧ e.IsSaveError) w w := by
    unfold settleArrow hotFlush
    rw [safe_bind]
    exact (safe_saveBatchCheckpoint_raises c.delivery _ _).mono
      (fun _ _ _ hw' => safe_modify_of fun _ _ htrace => (congrArg deadLetters htrace).trans hw')
      fun _ _ _ he => he
  have hend := hsafe.run_answered
  cases hrun : (c.settleArrow batch).run h w with
  | mk r w' =>
    rw [hrun] at hend
    cases r with
    | returned u =>
      obtain ⟨-, hletters⟩ := hend
      exact ⟨hletters, nofun⟩
    | raised e =>
      obtain ⟨-, hletters, hsave⟩ := hend
      refine ⟨hletters, fun exc hexc => ?_⟩
      cases hexc
      exact hsave
    | hung => exact hend.elim

omit [DecidableEq χ] in
/-- The first components of a zip. -/
theorem map_fst_zip_take {β γ : Type} (l : List β) (l' : List γ) :
    (l.zip l').map Prod.fst = l.take l'.length := by
  have hmin : l.take (min l.length l'.length) = l.take l'.length := by
    rw [← List.take_take, List.take_of_length_le (List.length_take_le' _ _)]
  rw [List.zip_eq_zip_take_min, List.map_fst_zip (by simp), hmin]

omit [DecidableEq χ] in
/-- Capturing the failed rows: the sink has taken all of them exactly when the attempt returns
`true`. -/
theorem run_captureArrow (h : Environment α χ) (batch : SourceBatch α χ) (failure : ArrowFailure α)
    (w : RunWorld ℓ α χ) :
    match (c.captureArrow batch failure).run h w with
    | (.returned routed, w') =>
      Captures c.delivery (batch.rows.take (failure.rowCount batch)) routed w w'
    | (.raised _, w') => Captures c.delivery (batch.rows.take (failure.rowCount batch)) false w w'
    | (.hung, _) => False := by
  have hsafe : (c.captureArrow batch failure : Delivery ℓ α χ Bool).Safe (.answered h False)
      (fun routed _ w' =>
        Captures c.delivery (batch.rows.take (failure.rowCount batch)) routed w w')
      (fun _ _ w' => Captures c.delivery (batch.rows.take (failure.rowCount batch)) false w w')
      w w := by
    have hroute : ∀ {stage middleware pairs} (w₁ : RunWorld ℓ α χ), w₁.trace = w.trace →
        pairs.map Prod.fst = batch.rows.take (failure.rowCount batch) →
        (c.delivery.routeAll stage failure.exception batch.checkpoint middleware pairs :
          Delivery ℓ α χ Bool).Safe (.answered h False)
          (fun routed _ w' =>
            Captures c.delivery (batch.rows.take (failure.rowCount batch)) routed w w')
          (fun _ _ w' => Captures c.delivery (batch.rows.take (failure.rowCount batch)) false w w')
          w w₁ := by
      intro stage middleware pairs w₁ htrace hpairs
      rw [← hpairs]
      refine (safe_routeAll_captures c.delivery _ _ _ _ _).mono (fun routed _ w' hw' => ?_)
        fun _ _ w' hw' => ?_
      · exact ⟨hw'.stored.trans (congrArg stored htrace), htrace ▸ hw'.deadLetters⟩
      · exact ⟨hw'.stored.trans (congrArg stored htrace), htrace ▸ hw'.deadLetters⟩
    cases failure with
    | middleware failure =>
      refine (safe_bind _ _).mpr (safe_modify_of fun w₁ _ htrace => hroute w₁ htrace ?_)
      exact (List.map_map ..).trans ((List.map_id _).trans List.take_length.symm)
    | write exc rows =>
      refine (safe_bind _ _).mpr (safe_modify_of fun w₁ _ htrace => hroute w₁ htrace ?_)
      exact (List.map_map ..).trans (map_fst_zip_take batch.rows rows)
  have hend := hsafe.run_answered
  cases hrun : (c.captureArrow batch failure).run h w with
  | mk r w' =>
    rw [hrun] at hend
    cases r with
    | returned routed => exact hend.elim fun _ hw' => hw'
    | raised e => exact hend.elim fun _ hw' => hw'
    | hung => exact hend

omit [DecidableEq χ] in
/-- Until the batch has failed, the store has taken no checkpoint for it. -/
theorem ArrowFails.stored_eq {h : Environment α χ} {w w₁ : RunWorld ℓ α χ} {batch : SourceBatch α χ}
    {outcome : Option (MiddlewareChain.ArrowProcessResult α)} {failure : ArrowFailure α}
    (hfails : c.ArrowFails h w batch outcome failure w₁) : stored w₁.trace = stored w.trace := by
  have hmark : Untouched w (w.mark (.finalizing batch)) := (Untouched.refl w).mark _
  cases failure with
  | middleware failure =>
    obtain ⟨-, rfl⟩ := hfails
    exact hmark.stored
  | write exc rows =>
    obtain ⟨-, hwrite⟩ := hfails
    have hsafe : (c.writeArrowRows rows : Delivery ℓ α χ Unit).Safe (.answered h False)
        (fun _ _ w' => Untouched (w.mark (.finalizing batch)) w')
        (fun _ _ w' => Untouched (w.mark (.finalizing batch)) w')
        (w.mark (.finalizing batch)) (w.mark (.finalizing batch)) :=
      safe_writeArrowRows_untouched c rows
    have hend := hsafe.run_answered
    rw [hwrite] at hend
    obtain ⟨-, huntouched⟩ := hend
    exact (hmark.trans huntouched).stored

omit [DecidableEq χ] in
/-- A lost fence stops the run itself. -/
theorem stopsWith_of_lost {failure : ArrowFailure α}
    (hfence : failure.exception.isFenceLost = true) : failure.stopsWith = failure.exception := by
  unfold ArrowFailure.stopsWith
  rw [hfence, Bool.or_true, if_pos rfl]

omit [DecidableEq χ] in
/-- Any other failure that is handled stops it as a delivery error. -/
theorem stopsWith_of_not_lost {failure : ArrowFailure α} (hhandled : failure.isUnhandled = false)
    (hfence : failure.exception.isFenceLost = false) :
    failure.stopsWith = .recordDelivery failure.exception := by
  unfold ArrowFailure.stopsWith
  rw [hhandled, hfence, Bool.or_false, if_neg Bool.false_ne_true]

omit [DecidableEq χ] in
/-- A run does not stop with another error at a failed batch. -/
theorem ne_stopsWith {exc : Exc} (hfence : exc.isFenceLost = false)
    (hdelivery : ∀ e, exc ≠ .recordDelivery e) {failure : ArrowFailure α}
    (hhandled : failure.isUnhandled = false) : exc ≠ failure.stopsWith := by
  rintro rfl
  cases hlost : failure.exception.isFenceLost with
  | true =>
    rw [stopsWith_of_lost hlost, hlost] at hfence
    cases hfence
  | false => exact hdelivery _ (stopsWith_of_not_lost hhandled hlost)

/-- Saving the checkpoint of the batch does not stop the run with the failure. -/
theorem settleArrow_not_stops {h : Environment α χ} {batch : SourceBatch α χ}
    {failure : ArrowFailure α} (hhandled : failure.isUnhandled = false) {w w' : RunWorld ℓ α χ}
    {r : Outcome Exc Unit} (hrun : (c.settleArrow batch).run h w = (r, w')) :
    r ≠ .raised failure.stopsWith ∧ deadLetters w'.trace = deadLetters w.trace := by
  obtain ⟨hletters, hraised⟩ := run_settleArrow h batch w (c := c)
  rw [hrun] at hletters hraised
  refine ⟨fun hr => ?_, hletters⟩
  obtain ⟨hfence, hdelivery⟩ := (hraised _ hr).ne_failure
  exact ne_stopsWith hfence hdelivery hhandled rfl

/-- The exact condition once the rows were captured or not. -/
theorem afterCapture_stops_iff {h : Environment α χ} {batch : SourceBatch α χ}
    {failure : ArrowFailure α} (hhandled : failure.isUnhandled = false) {routed : Bool}
    {w₁ w₂ w' : RunWorld ℓ α χ} {r : Outcome Exc Unit}
    (hcaptures : Captures c.delivery (batch.rows.take (failure.rowCount batch)) routed w₁ w₂)
    (hrun : (c.afterCapture batch failure routed).run h w₂ = (r, w')) :
    (¬ RowsRouted c.delivery batch.rows w₁.trace w'.trace ∨ failure.exception.isFenceLost = true →
      r = .raised failure.stopsWith ∧ stored w'.trace = stored w₁.trace) ↔
      failure.exception.isFenceLost = false ∧ (batch.rows = [] ∨
        (failure.rowCount batch = batch.rows.length ∨
          (routed = true ∧ batch.rows.length < failure.rowCount batch))) := by
  have hrouted := hcaptures.rowsRouted_iff
  unfold afterCapture at hrun
  by_cases hcount : failure.rowCount batch = batch.rows.length
  · rw [if_neg (not_not_intro hcount.symm)] at hrun
    cases routed with
    | true =>
      -- every row was captured
      rw [if_pos rfl] at hrun
      obtain ⟨hne, hletters⟩ := settleArrow_not_stops hhandled hrun
      have hall : RowsRouted c.delivery batch.rows w₁.trace w'.trace := by
        obtain ⟨letters, hw₂, hrows⟩ := hrouted.mpr ⟨rfl, hcount.ge⟩
        exact ⟨letters, hletters.trans hw₂, hrows⟩
      constructor
      · intro h
        refine ⟨?_, .inr (.inl hcount)⟩
        by_contra hfence
        exact hne (h (.inr (eq_true_of_ne_false hfence))).1
      · rintro ⟨hfence, -⟩ (hnot | hlost)
        · exact absurd hall hnot
        · rw [hfence] at hlost
          cases hlost
    | false =>
      -- some row was not captured, and the run stops
      cases hrun
      cases hfence : failure.exception.isFenceLost with
      | true =>
        refine iff_of_false (fun h => ?_) fun h => by cases h.1
        have hexc := Outcome.raised.inj (h (.inr rfl)).1
        rw [stopsWith_of_lost hfence] at hexc
        rw [← hexc] at hfence
        cases hfence
      | false =>
        refine iff_of_true (fun _ => ⟨?_, hcaptures.stored⟩) ⟨rfl, .inr (.inl hcount)⟩
        rw [stopsWith_of_not_lost hhandled hfence]
  · -- the rows cannot be paired, and the run stops with another error
    rw [if_pos fun heq => hcount heq.symm] at hrun
    cases hrun
    have hne : (.raised (DeliveryEngine.zipStrictError batch.rows.length
        (failure.rowCount batch)) : Outcome Exc Unit) ≠ .raised failure.stopsWith := fun heq =>
      ne_stopsWith rfl (fun _ h => by cases h) hhandled (Outcome.raised.inj heq)
    rw [hrouted]
    constructor
    · intro h
      have hall : routed = true ∧ batch.rows.length ≤ failure.rowCount batch := by
        by_contra hnot
        exact hne (h (.inl hnot)).1
      refine ⟨?_, .inr (.inr ⟨hall.1, by omega⟩)⟩
      by_contra hfence
      exact hne (h (.inr (eq_true_of_ne_false hfence))).1
    · rintro ⟨hfence, hsafe⟩ (hnot | hlost)
      · refine absurd ?_ hnot
        rcases hsafe with hempty | heq | ⟨hall, hlt⟩
        · refine ⟨?_, hempty ▸ Nat.zero_le _⟩
          by_contra hfalse
          rw [eq_false_of_ne_true hfalse] at hcaptures
          exact hcaptures.ne_nil hempty
        · exact absurd heq hcount
        · exact ⟨hall, hlt.le⟩
      · rw [hfence] at hlost
        cases hlost

/-- The exact condition without a dead-letter sink: only an empty batch is safe. -/
theorem settleArrow_stops_iff {h : Environment α χ} {batch : SourceBatch α χ}
    {failure : ArrowFailure α} (hhandled : failure.isUnhandled = false) {w₁ w' : RunWorld ℓ α χ}
    {r : Outcome Exc Unit} (hrun : (c.settleArrow batch).run h w₁ = (r, w')) :
    (¬ RowsRouted c.delivery batch.rows w₁.trace w'.trace ∨ failure.exception.isFenceLost = true →
      r = .raised failure.stopsWith ∧ stored w'.trace = stored w₁.trace) ↔
      failure.exception.isFenceLost = false ∧ batch.rows = [] := by
  obtain ⟨hne, hletters⟩ := settleArrow_not_stops hhandled hrun
  have hrows : RowsRouted c.delivery batch.rows w₁.trace w'.trace ↔ batch.rows = [] :=
    rowsRouted_iff_of_eq hletters
  rw [hrows]
  constructor
  · intro hstops
    refine ⟨?_, ?_⟩
    · by_contra hfence
      exact hne (hstops (.inr (eq_true_of_ne_false hfence))).1
    · by_contra hempty
      exact hne (hstops (.inl hempty)).1
  · rintro ⟨hfence, hempty⟩ (hnot | hlost)
    · exact absurd hempty hnot
    · rw [hfence] at hlost
      cases hlost

omit [DecidableEq χ] in
/-- The exact condition where the dead-letter writer raises: it raises the error of the batch. -/
theorem interrupted_stops_iff {batch : SourceBatch α χ} {failure : ArrowFailure α}
    {w₁ w' : RunWorld ℓ α χ}
    (hcaptures : Captures c.delivery (batch.rows.take (failure.rowCount batch)) false w₁ w')
    (exc : Exc) :
    (¬ RowsRouted c.delivery batch.rows w₁.trace w'.trace ∨ failure.exception.isFenceLost = true →
      (.raised exc : Outcome Exc Unit) = .raised failure.stopsWith ∧
        stored w'.trace = stored w₁.trace) ↔ exc = failure.stopsWith := by
  have hnot : ¬ RowsRouted c.delivery batch.rows w₁.trace w'.trace := fun hrouted =>
    Bool.false_ne_true (hcaptures.rowsRouted_iff.mp hrouted).1
  constructor
  · exact fun hstops => Outcome.raised.inj (hstops (.inl hnot)).1
  · exact fun hexc _ => ⟨congrArg Outcome.raised hexc, hcaptures.stored⟩

/-- The exact condition for one failure. -/
theorem stops_iff (hpolicy : c.delivery.sinkFailurePolicy = .failClosed)
    {h : Environment α χ} {w w₁ : RunWorld ℓ α χ} {batch : SourceBatch α χ}
    {outcome : Option (MiddlewareChain.ArrowProcessResult α)} {failure : ArrowFailure α}
    (hfails : c.ArrowFails h w batch outcome failure w₁) {r : Outcome Exc Unit}
    {w' : RunWorld ℓ α χ} (hrun : (c.finalizeArrow batch outcome).run h w = (r, w')) :
    (¬ RowsRouted c.delivery batch.rows w₁.trace w'.trace ∨ failure.exception.isFenceLost = true →
      r = .raised failure.stopsWith ∧ stored w'.trace = stored w.trace) ↔
      c.StopsSafely h batch failure w₁ := by
  rw [run_finalizeArrow_handled hpolicy hfails] at hrun
  cases hunhandled : failure.isUnhandled with
  | true =>
    rw [hunhandled, if_pos rfl] at hrun
    cases hrun
    refine iff_of_true (fun _ => ⟨?_, hfails.stored_eq⟩) (.inl hunhandled)
    rw [ArrowFailure.stopsWith, hunhandled]
    rfl
  | false =>
    rw [hunhandled, if_neg Bool.false_ne_true] at hrun
    rw [← hfails.stored_eq]
    unfold StopsSafely
    rw [hunhandled]
    simp only [Bool.false_eq_true, false_or]
    unfold handleArrow at hrun
    cases hdlq : c.delivery.dlqSink with
    | false =>
      rw [hdlq, if_neg Bool.false_ne_true] at hrun
      refine (settleArrow_stops_iff hunhandled hrun).trans ?_
      cases failure.exception.isFenceLost <;> simp
    | true =>
      rw [hdlq, if_pos rfl, run_bind] at hrun
      have hcaptures := run_captureArrow h batch failure w₁ (c := c)
      cases hcapture : (c.captureArrow batch failure).run h w₁ with
      | mk r₂ w₂ =>
        rw [hcapture] at hrun hcaptures
        cases r₂ with
        | hung => exact hcaptures.elim
        | raised exc =>
          -- the dead-letter writer has raised
          cases hrun
          rw [interrupted_stops_iff hcaptures exc]
          cases hfence : failure.exception.isFenceLost with
          | true =>
            rw [stopsWith_of_lost hfence]
            exact ⟨fun hexc => ⟨rfl, congrArg Outcome.raised hexc⟩, fun hsafe =>
              Outcome.raised.inj hsafe.2⟩
          | false =>
            rw [stopsWith_of_not_lost hunhandled hfence]
            exact ⟨fun hexc => .inr ⟨rfl, hexc⟩, fun hsafe => (hsafe.resolve_left hcaptures.ne_nil).2⟩
        | returned routed =>
          rw [afterCapture_stops_iff hunhandled hcaptures hrun]
          cases failure.exception.isFenceLost with
          | true => exact iff_of_false (fun h => by cases h.1) fun h => by cases h.2
          | false =>
            refine ⟨fun h => h.2.imp_right fun h => ⟨rfl, h⟩, fun h => ⟨rfl, h.imp_right fun h => h.2⟩⟩

omit [DecidableEq χ] in
/-- A program raises the error exactly when the run stops with it whatever would come next. -/
theorem run_raises_iff {p : Delivery ℓ α χ Unit} {h : Environment α χ} {w w' : RunWorld ℓ α χ}
    {exc : Exc} :
    (∀ rest : Delivery ℓ α χ Unit, (p >>= fun _ => rest).run h w = (.raised exc, w')) ↔
      p.run h w = (.raised exc, w') := by
  refine ⟨fun hrest => ?_, fun hrun rest => run_bind_raised h hrun⟩
  have hhang := hrest hang
  rw [run_bind] at hhang
  cases hrun : p.run h w with
  | mk r w₁ =>
    rw [hrun] at hhang
    cases r with
    | returned u => cases hhang
    | raised e => exact hhang
    | hung => cases hhang

/-- Under `FAIL_CLOSED`, an Arrow batch of which not every row was captured stops the run with its
failure and without a save, and a lost fence is never treated as captured, exactly when every failure
of the batch stops it safely. -/
theorem finalizeArrow_failsClosed_iff (hpolicy : c.delivery.sinkFailurePolicy = .failClosed)
    (h : Environment α χ) (batch : SourceBatch α χ)
    (outcome : Option (MiddlewareChain.ArrowProcessResult α)) (w : RunWorld ℓ α χ) :
    c.FailsClosed h batch outcome w ↔
      ∀ failure w₁, c.ArrowFails h w batch outcome failure w₁ → c.StopsSafely h batch failure w₁ := by
  refine forall_congr' fun failure => forall_congr' fun w₁ => ?_
  constructor
  · intro hclosed hfails
    refine (stops_iff hpolicy hfails rfl).mp fun hnot => ?_
    obtain ⟨hrest, hstored⟩ := hclosed _ hfails rfl hnot
    exact ⟨congrArg Prod.fst (run_raises_iff.mp hrest), hstored⟩
  · rintro hsafe _ hfails rfl hnot
    obtain ⟨hraised, hstored⟩ := (stops_iff hpolicy hfails rfl).mpr (hsafe hfails) hnot
    exact ⟨run_raises_iff.mpr (Prod.ext hraised rfl), hstored⟩

end ExecutionCoordinator

/-! ## A writer that rejects the batch -/

/-- The writer rejects every batch. -/
def rejectingWriter : Environment ℕ ℕ
  | _, .await (.writeBatch _) => .error (.runtimeError "rejected")
  | t, o => undisturbed t o

/-- The lease of the run is lost. -/
def lostLease : Environment ℕ ℕ
  | _, .await .validateFence => .ok false
  | t, o => undisturbed t o

/-- The Arrow batch with two rows. -/
def arrowBatch : SourceBatch ℕ ℕ := ⟨[1, 2], some 20⟩

/-- The writer rejects every batch, and the dead-letter sink rejects the second row. -/
def rejectingDlq : Environment ℕ ℕ
  | _, .await (.dlqWrite entry) =>
    if entry.record = some 2 then .error (.runtimeError "rejected") else .ok ()
  | t, o => rejectingWriter t o

/-- With a dead-letter sink whose failures are logged the batch meets the condition: it stops the run, as
its second row is not captured. -/
theorem finalizeArrow_failsClosed_rejected :
    (((ExecutionCoordinator.standard (.standard true) []).finalizeArrow arrowBatch none).run rejectingDlq
        atStart).1 = .raised (.recordDelivery (.runtimeError "rejected")) ∧
      (ExecutionCoordinator.standard (.standard true) []).FailsClosed rejectingDlq arrowBatch none
        atStart := by
  refine ⟨rfl, (ExecutionCoordinator.finalizeArrow_failsClosed_iff rfl rejectingDlq arrowBatch none
    atStart).mpr fun failure w₁ hfails => .inr ?_⟩
  cases failure with
  | middleware failure =>
    obtain ⟨⟨result, hresult, -⟩, -⟩ := hfails
    cases hresult
  | write exc rows =>
    obtain ⟨hrows, hrun⟩ := hfails
    cases hrows
    obtain ⟨hraised, rfl⟩ := Prod.mk.inj hrun
    obtain rfl : Exc.runtimeError "rejected" = exc := Outcome.raised.inj hraised
    exact .inr ⟨rfl, .inl rfl⟩

/-- Without a dead-letter sink the store takes the checkpoint of the rejected batch, and a run that has
lost its lease goes on. -/
theorem not_finalizeArrow_failsClosed :
    (¬ (ExecutionCoordinator.standard (.standard false) []).FailsClosed rejectingWriter arrowBatch
        none atStart) ∧
      ¬ (ExecutionCoordinator.standard { DeliveryEngine.standard false with
          runFence := true, checkpointStore := false } []).FailsClosed lostLease arrowBatch none
        atStart := by
  constructor
  · intro h
    obtain ⟨-, hstored⟩ := h (.write (.runtimeError "rejected") [1, 2]) _ _ ⟨rfl, rfl⟩ rfl
      (.inl fun hrouted => absurd hrouted.length (by decide))
    exact absurd hstored (by decide)
  · intro h
    obtain ⟨hraised, -⟩ := h (.write (.fenceLost
      "Pipeline run lost its distributed lease fence before a side effect.") [1, 2]) _ _ ⟨rfl, rfl⟩
      rfl (.inr rfl)
    cases hraised (pure ())

end AgoraEtl
