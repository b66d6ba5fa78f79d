import Mathlib.Tactic.Ring
import AgoraEtl.Effect.Graded
import AgoraEtl.Delivery.Frame

/-!
# Run accounting in the delivery engine

Every record that a lane consumes is to end as written, dropped or errored.  The balance of a run state
is the number of records consumed but not yet counted as one of these, with what is still uncommitted in
the hot-path counters.  Each program of the delivery engine lowers the balance by the number of records
it is given, whatever becomes of them; this holds as long as the writer reports no record both as
written and as failed, since such a record is counted twice.
-/

namespace AgoraEtl

open Effect Program

variable {ℓ α χ β : Type}

/-- The records that are consumed and not yet counted as written, dropped or errored. -/
def RunState.balance (s : RunState ℓ α χ) : ℤ :=
  (s.metrics.recordsConsumed + s.hot.consumed) -
    (s.metrics.recordsWritten + s.hot.written) - s.metrics.recordsDropped - s.metrics.recordsErrored

/-- The hot-path counters, and how many records are committed as consumed. -/
def RunState.intake (s : RunState ℓ α χ) : HotPathMetrics × ℕ := (s.hot, s.metrics.recordsConsumed)

/-- The change of the balance by programs that consume nothing and leave the queue alone. -/
def deliveryBooks (ℓ α χ : Type) : Grading ℤ (RunState ℓ α χ) where
  rel d s s' := s'.balance = s.balance + d ∧ s'.intake = s.intake ∧ s'.queue = s.queue
  refl s := ⟨by ring, rfl, rfl⟩
  trans h h' := ⟨by rw [h'.1, h.1]; ring, h'.2.1.trans h.2.1, h'.2.2.trans h.2.2⟩

/-- The writer reports each record as written or as failed, not as both. -/
def WriteResult.Clean (wr : WriteResult) : Prop := wr.written = true → wr.errors = []

/-- The write results of an answer are clean. -/
def CleanAnswer : (o : Call α χ) → o.Ret → Prop
  | .await (.write _), .ok wr => wr.Clean
  | .await (.writeBatch _), .ok results => ∀ wr ∈ results, wr.Clean
  | _, _ => True

/-- Every write result of the run is clean. -/
def CleanWrites (_ : RunTrace α χ) (e : Event (Call α χ) Call.Ret (Mark α χ)) : Prop :=
  ∀ o r, e = .called o r → CleanAnswer o r

/-- The program leaves the counters of the records alone. -/
abbrev Unbooked (p : Delivery ℓ α χ β) : Prop := p.Within (deliveryBooks ℓ α χ).quiet

/-- When the program returns, it has counted so many records. -/
abbrev Counts (n : ℤ) (p : Delivery ℓ α χ β) : Prop :=
  p.Moves (deliveryBooks ℓ α χ) CleanWrites (-n)

section Basics

/-- A change of the state is off the books if it keeps the balance, the intake and the queue. -/
theorem unbooked_modify {f : RunState ℓ α χ → RunState ℓ α χ} (hbalance : ∀ s, (f s).balance = s.balance)
    (hintake : ∀ s, (f s).intake = s.intake) (hqueue : ∀ s, (f s).queue = s.queue) :
    Unbooked (modify f : Delivery ℓ α χ Unit) :=
  within_modify fun s => ⟨by rw [hbalance]; ring, hintake s, hqueue s⟩

/-- Awaiting an operation counts nothing. -/
theorem unbooked_invoke (a : Await α χ) : Unbooked (invoke a : Delivery ℓ α χ a.Value) :=
  within_bind (within_perform trivial) fun r => within_ofExcept r

/-- Marks are not counted. -/
theorem unbooked_note (m : Mark α χ) : Unbooked (note m : Delivery ℓ α χ Unit) := within_note trivial

/-- Running success hooks counts nothing. -/
theorem unbooked_runHooks (hooks : List Hook) : Unbooked (runHooks hooks : Delivery ℓ α χ Unit) := by
  induction hooks with
  | nil => exact within_ret ()
  | cons hook hooks ih => exact within_bind (unbooked_invoke _) fun _ => ih

/-- Calling discard callbacks counts nothing. -/
theorem unbooked_runDiscards (entries : List Registration) :
    Unbooked (runDiscards entries : Delivery ℓ α χ Unit) := by
  induction entries with
  | nil => exact within_ret ()
  | cons entry entries ih =>
    unfold runDiscards
    cases entry.onDiscard with
    | none => exact ih
    | some discard =>
      exact within_bind (within_catchException (unbooked_invoke _) fun _ => within_ret ()) fun _ => ih

section Hooks

variable [DecidableEq α]

/-- Taking the registered hooks of a record counts nothing. -/
theorem unbooked_popRegistrations (record : α) :
    Unbooked (popRegistrations record : Delivery ℓ α χ (List Registration)) :=
  within_bind within_read fun _ => within_bind
    (unbooked_modify (fun _ => rfl) (fun _ => rfl) fun _ => rfl) fun _ => within_ret _

/-- Taking the hooks of several records counts nothing. -/
theorem unbooked_popSuccessHooks (records : List α) :
    Unbooked (popSuccessHooks records : Delivery ℓ α χ (List Hook)) := by
  induction records with
  | nil => exact within_ret _
  | cons record records ih =>
    exact within_bind (unbooked_popRegistrations record) fun _ => within_bind ih fun _ => within_ret _

/-- Discarding the hooks of records counts nothing. -/
theorem unbooked_discardSuccessHooks (records : List α) :
    Unbooked (discardSuccessHooks records : Delivery ℓ α χ Unit) := by
  induction records with
  | nil => exact within_ret ()
  | cons record records ih =>
    exact within_bind (unbooked_popRegistrations record) fun entries =>
      within_bind (unbooked_runDiscards entries) fun _ => ih

/-- Collecting the hooks of a record and of what it was processed to counts nothing. -/
theorem unbooked_successHookFor (rawRecord : α) (processedRecord : Option α) (onSuccess : List Hook) :
    Unbooked (successHookFor rawRecord processedRecord onSuccess : Delivery ℓ α χ (List Hook)) := by
  unfold successHookFor
  cases processedRecord with
  | none => exact within_bind (unbooked_popSuccessHooks _) fun _ => within_ret _
  | some processed => exact within_bind (unbooked_popSuccessHooks _) fun _ => within_ret _

end Hooks

/-- An errored record is counted once. -/
theorem counts_errored (n : ℕ) : Counts n (countErrored n : Delivery ℓ α χ Unit) :=
  books_modify (d := -n) (fun s => ⟨by simp [RunState.balance]; ring, rfl, rfl⟩) rfl

/-- A dropped record is counted once. -/
theorem counts_dropped (n : ℕ) : Counts n (countDropped n : Delivery ℓ α χ Unit) :=
  books_modify (d := -n) (fun s => ⟨by simp [RunState.balance]; ring, rfl, rfl⟩) rfl

/-- A written record is counted once. -/
theorem counts_written (n : ℕ) : Counts n (countWritten n : Delivery ℓ α χ Unit) :=
  books_modify (d := -n) (fun s => ⟨by simp [RunState.balance]; ring, rfl, rfl⟩) rfl

/-- Counting around quiet programs. -/
theorem counts_quiet_bind {p : Delivery ℓ α χ β} {γ : Type} {f : β → Delivery ℓ α χ γ} {n : ℤ}
    (hp : Unbooked p) (hf : ∀ a, Counts n (f a)) : Counts n (p >>= f) := books_quiet_bind hp hf

/-- What follows a count and counts nothing leaves it as it is. -/
theorem counts_bind_quiet {p : Delivery ℓ α χ β} {γ : Type} {f : β → Delivery ℓ α χ γ} {n : ℤ}
    (hp : Counts n p) (hf : ∀ a, Unbooked (f a)) : Counts n (p >>= f) := books_bind_quiet hp hf

/-- The counts of a sequence add up. -/
theorem counts_bind {p : Delivery ℓ α χ β} {γ : Type} {f : β → Delivery ℓ α χ γ} {m n k : ℤ}
    (hp : Counts m p) (hf : ∀ a, Counts n (f a)) (hk : m + n = k) : Counts k (p >>= f) :=
  moves_bind hp hf (by rw [← hk]; ring)

/-- Both branches have to count as many records. -/
theorem counts_ite {c : Prop} [Decidable c] {p q : Delivery ℓ α χ β} {n : ℤ} (hp : Counts n p)
    (hq : Counts n q) : Counts n (if c then p else q) := books_ite hp hq

/-- A program that raises has not returned, and any count is right for it. -/
theorem counts_raise (n : ℤ) (exc : Exc) : Counts n (raise exc : Delivery ℓ α χ β) := books_raise exc

/-- A program off the books counts no record. -/
theorem counts_of_quiet {p : Delivery ℓ α χ β} (hp : Unbooked p) : Counts 0 p := moves_of_quiet hp

end Basics

namespace DeliveryEngine

variable (d : DeliveryEngine α χ)

/-! ## What counts nothing -/

/-- The check of the run fence counts nothing. -/
theorem unbooked_assertRunFenceActive : Unbooked (d.assertRunFenceActive : Delivery ℓ α χ Unit) :=
  within_ite (within_bind (unbooked_invoke _) fun _ => within_ite (within_ret ()) (within_raise _))
    (within_ret ())

/-- The metrics of a flush are not counts of records. -/
theorem unbooked_recordFlushMetrics (n : ℕ) : Unbooked (recordFlushMetrics n : Delivery ℓ α χ Unit) :=
  unbooked_modify (fun _ => rfl) (fun _ => rfl) fun _ => rfl

/-- A write alone counts nothing: its result is counted by what comes after it. -/
theorem unbooked_writeOne (record : α) : Unbooked (d.writeOne record : Delivery ℓ α χ WriteResult) :=
  within_bind d.unbooked_assertRunFenceActive fun _ => within_bind (unbooked_invoke _) fun _ =>
    within_bind (unbooked_recordFlushMetrics _) fun _ => within_ret _

/-- The write of a batch counts nothing. -/
theorem unbooked_writeBatch (records : List α) :
    Unbooked (d.writeBatch records : Delivery ℓ α χ (List WriteResult)) :=
  within_bind d.unbooked_assertRunFenceActive fun _ => within_bind (unbooked_invoke _) fun _ =>
    within_bind (unbooked_recordFlushMetrics _) fun _ => within_ret _

/-- The write of an Arrow batch counts nothing. -/
theorem unbooked_writeArrowBatch (rows : List α) :
    Unbooked (d.writeArrowBatch rows : Delivery ℓ α χ Unit) :=
  within_bind d.unbooked_assertRunFenceActive fun _ => within_bind (unbooked_invoke _) fun _ =>
    unbooked_recordFlushMetrics _

/-- An attempt to write to the dead-letter queue counts nothing. -/
theorem unbooked_attemptDlqWrite (stage : String) (exc : Exc) (record : α) (processedRecord : Option α)
    (checkpoint : Option χ) (middleware : Option String) :
    Unbooked (d.attemptDlqWrite stage exc record processedRecord checkpoint middleware :
      Delivery ℓ α χ Unit) := by
  refine within_bind d.unbooked_assertRunFenceActive fun _ => ?_
  cases checkpoint with
  | none => exact within_bind (unbooked_invoke _) fun _ => unbooked_invoke _
  | some value => exact unbooked_invoke _

/-- Capturing a failure counts no record; the caller counts it. -/
theorem unbooked_writeToDlq (stage : String) (exc : Exc) (record : α) (processedRecord : Option α)
    (checkpoint : Option χ) (middleware : Option String) :
    Unbooked (d.writeToDlq stage exc record processedRecord checkpoint middleware :
      Delivery ℓ α χ Bool) := by
  refine within_ite (within_bind (unbooked_note _) fun _ => within_ret _) ?_
  refine within_bind (within_attempt (d.unbooked_attemptDlqWrite _ _ _ _ _ _)) fun written => ?_
  cases written with
  | ok u => exact within_ret _
  | error dlqExc =>
    refine within_ite ?_ (within_bind (unbooked_note _) fun _ => within_raise _)
    exact within_bind (unbooked_modify (fun _ => rfl) (fun _ => rfl) fun _ => rfl) fun _ =>
      within_bind (unbooked_note _) fun _ => within_ite (within_raise _) (within_ret _)

/-- Saving a checkpoint counts no record. -/
theorem unbooked_persistCheckpoint (checkpoint : Checkpoint χ) (batchSize : ℕ) :
    Unbooked (d.persistCheckpoint checkpoint batchSize : Delivery ℓ α χ Unit) := by
  refine within_bind (within_catchException ?_ fun exc => ?_) fun saved => ?_
  · have hsave : Unbooked (do
        invoke (.saveCheckpoint d.checkpointKey checkpoint)
        pure true : Delivery ℓ α χ Bool) := within_bind (unbooked_invoke _) fun _ => within_ret _
    exact within_bind d.unbooked_assertRunFenceActive fun _ =>
      within_ite (within_bind (within_raise _) fun _ => hsave) hsave
  · exact within_bind (unbooked_modify (fun _ => rfl) (fun _ => rfl) fun _ => rfl) fun _ =>
      within_ite (within_ret _) (within_raise _)
  · exact within_bind (unbooked_modify (fun _ => rfl) (fun _ => rfl) fun _ => rfl) fun _ =>
      within_ite (unbooked_modify (fun _ => rfl) (fun _ => rfl) fun _ => rfl) (within_ret ())

/-- Saving the checkpoint that is due counts no record. -/
theorem unbooked_persistPending (pending : Option (Checkpoint χ × ℕ)) :
    Unbooked (d.persistPending pending : Delivery ℓ α χ Unit) := by
  cases pending with
  | none => exact within_ret ()
  | some p => exact d.unbooked_persistCheckpoint p.1 p.2

/-- The end of a commit, with its save and its hooks, counts no record. -/
theorem unbooked_finishCommit (pending : PendingCommit χ) :
    Unbooked (d.finishCommit pending : Delivery ℓ α χ Unit) :=
  within_bind (d.unbooked_persistPending _) fun _ => unbooked_runHooks _

/-- Routing the errors of a write result counts no record. -/
theorem unbooked_routeErrors (rawRecord processedRecord : α) (checkpoint : Option χ)
    (errors : List Exc) :
    Unbooked (d.routeErrors rawRecord processedRecord checkpoint errors : Delivery ℓ α χ Bool) := by
  induction errors with
  | nil => exact within_ret _
  | cons err errors ih =>
    exact within_bind (d.unbooked_writeToDlq _ _ _ _ _ _) fun _ => within_bind ih fun _ => within_ret _

/-- Routing all pairs of a failed batch counts no record. -/
theorem unbooked_routeAll (stage : String) (exc : Exc) (checkpoint : Option χ)
    (middleware : Option String) (pairs : List (α × Option α)) :
    Unbooked (d.routeAll stage exc checkpoint middleware pairs : Delivery ℓ α χ Bool) := by
  induction pairs with
  | nil => exact within_ret _
  | cons pair pairs ih =>
    exact within_bind (d.unbooked_writeToDlq _ _ _ _ _ _) fun _ => within_bind ih fun _ => within_ret _

section Checkpoints

variable [DecidableEq χ]

/-- The counter of the checkpoint cadence is not one of the counted metrics. -/
theorem unbooked_countProcessed (value : χ) (n : ℕ) :
    Unbooked (d.countProcessed value n : Delivery ℓ α χ (Option (Checkpoint χ))) :=
  within_bind (unbooked_modify (fun _ => rfl) (fun _ => rfl) fun _ => rfl) fun _ =>
    within_bind within_read fun _ => within_ite (within_ret _) (within_ret _)

/-- Asking whether a checkpoint is due counts no record. -/
theorem unbooked_prepareCheckpoint (value : Option χ) :
    Unbooked (d.prepareCheckpoint value : Delivery ℓ α χ (Option (Checkpoint χ))) := by
  unfold prepareCheckpoint
  split
  · exact d.unbooked_countProcessed _ _
  · exact within_ret _

/-- Saving a record's checkpoint when it is due counts no record. -/
theorem unbooked_saveCheckpoint (value : Option χ) :
    Unbooked (d.saveCheckpoint value : Delivery ℓ α χ Unit) :=
  within_bind (d.unbooked_prepareCheckpoint value) fun _ => d.unbooked_persistPending _

/-- Saving a batch's checkpoint when it is due counts no record. -/
theorem unbooked_saveBatchCheckpoint (value : Option χ) (batchSize : ℕ) :
    Unbooked (d.saveBatchCheckpoint value batchSize : Delivery ℓ α χ Unit) := by
  unfold saveBatchCheckpoint
  split
  · exact within_ite (within_ret ()) (within_bind (d.unbooked_countProcessed _ _) fun _ =>
      d.unbooked_persistPending _)
  · exact within_ret ()

/-- Adding a record to a commit counts nothing. -/
theorem unbooked_preparePending (pending : PendingCommit χ) (checkpoint : Option χ)
    (hooks : List Hook) :
    Unbooked (d.preparePending pending checkpoint hooks : Delivery ℓ α χ (PendingCommit χ)) := by
  refine within_bind (d.unbooked_prepareCheckpoint checkpoint) fun prepared => ?_
  cases prepared with
  | none => exact within_ret _
  | some c => exact within_ret _

/-- Committing one record counts nothing. -/
theorem unbooked_commitCheckpointed (checkpoint : Option χ) (onSuccess : List Hook) :
    Unbooked (d.commitCheckpointed checkpoint onSuccess : Delivery ℓ α χ Unit) :=
  within_bind (d.unbooked_saveCheckpoint checkpoint) fun _ => unbooked_runHooks _

/-- Committing an outcome counts nothing: the record was counted when it was resolved. -/
theorem unbooked_commitOutcome (outcome : CommitOutcome χ) :
    Unbooked (d.commitOutcome outcome : Delivery ℓ α χ Unit) := by
  cases outcome with
  | erroredUnrouted exc => exact within_ite (within_raise _) (within_ret ())
  | written checkpoint onSuccess => exact d.unbooked_commitCheckpointed _ _
  | dropped checkpoint onSuccess => exact d.unbooked_commitCheckpointed _ _
  | erroredRouted checkpoint onSuccess => exact d.unbooked_commitCheckpointed _ _

/-- Nor does committing the outcomes of a batch. -/
theorem unbooked_commitOutcomesFrom (pending : PendingCommit χ) (outcomes : List (CommitOutcome χ)) :
    Unbooked (d.commitOutcomesFrom pending outcomes : Delivery ℓ α χ Unit) := by
  induction outcomes generalizing pending with
  | nil => exact d.unbooked_finishCommit pending
  | cons outcome outcomes ih =>
    cases outcome with
    | erroredUnrouted exc =>
      exact within_bind (d.unbooked_finishCommit pending) fun _ => within_ite (within_raise _) (ih _)
    | written checkpoint onSuccess =>
      exact within_bind (d.unbooked_preparePending _ _ _) fun _ => ih _
    | dropped checkpoint onSuccess =>
      exact within_bind (d.unbooked_preparePending _ _ _) fun _ => ih _
    | erroredRouted checkpoint onSuccess =>
      exact within_bind (d.unbooked_preparePending _ _ _) fun _ => ih _

/-- Nor does committing a batch that was written as a whole. -/
theorem unbooked_commitSuccessFrom (pending : PendingCommit χ) (items : List (PendingWrite α χ)) :
    Unbooked (d.commitSuccessFrom pending items : Delivery ℓ α χ Unit) := by
  induction items generalizing pending with
  | nil => exact d.unbooked_finishCommit pending
  | cons item items ih => exact within_bind (d.unbooked_preparePending _ _ _) fun _ => ih _

/-- The commit of a dropped record counts nothing. -/
theorem unbooked_finishDrop (checkpoint : Option χ) (onSuccess : List Hook) :
    Unbooked (d.finishDrop checkpoint onSuccess : Delivery ℓ α χ Unit) :=
  within_bind within_read fun _ => within_bind (unbooked_note _) fun _ =>
    within_bind (d.unbooked_saveCheckpoint _) fun _ => unbooked_runHooks _

end Checkpoints

/-! ## What counts records -/

/-- A clean write result counts its record once, as written or as errored. -/
theorem counts_resolveWriteResult {writeResult : WriteResult} (hclean : writeResult.Clean)
    (rawRecord processedRecord : α) (checkpoint : Option χ) (onSuccess : List Hook) :
    Counts 1 (d.resolveWriteResult writeResult rawRecord processedRecord checkpoint onSuccess :
      Delivery ℓ α χ (CommitOutcome χ)) := by
  unfold resolveWriteResult
  cases herrors : writeResult.errors with
  | nil =>
    exact counts_ite
      (counts_bind_quiet (counts_dropped 1) fun _ => within_bind (unbooked_note _) fun _ => within_ret _)
      (counts_bind_quiet (counts_written 1) fun _ => within_bind (unbooked_note _) fun _ => within_ret _)
  | cons first rest =>
    have hwritten : writeResult.written = false := by
      refine eq_false_of_ne_true fun h => ?_
      rw [hclean h] at herrors
      cases herrors
    simp only [hwritten, Bool.false_eq_true, if_false]
    refine counts_quiet_bind (d.unbooked_routeErrors _ _ _ _) fun routedAll =>
      counts_bind_quiet (counts_errored 1) fun _ => ?_
    exact within_ite (within_bind (unbooked_note _) fun _ => within_ret _) (within_ret _)

/-- Where the write of a batch raised, each of its records is counted as errored. -/
theorem counts_flushBatchOutcomesFrom [DecidableEq χ] (exc : Exc) (pending : PendingCommit χ)
    (items : List (PendingWrite α χ)) :
    Counts items.length (d.flushBatchOutcomesFrom exc pending items : Delivery ℓ α χ Unit) := by
  induction items generalizing pending with
  | nil => exact counts_of_quiet (d.unbooked_finishCommit pending)
  | cons item items ih =>
    refine counts_quiet_bind (d.unbooked_writeToDlq _ _ _ _ _ _) fun routed =>
      counts_bind (counts_errored 1) (n := items.length) (fun _ => counts_ite ?_ ?_)
        (by rw [List.length_cons]; push_cast; ring)
    · exact counts_quiet_bind (unbooked_note _) fun _ =>
        counts_quiet_bind (d.unbooked_preparePending _ _ _) fun _ => ih _
    · exact counts_quiet_bind (d.unbooked_finishCommit pending) fun _ => counts_raise _ _

section Records

variable [DecidableEq α]

/-- Resolving one record of a batch counts it once. -/
theorem counts_resolveRecord {writeResult : WriteResult} (hclean : writeResult.Clean)
    (rawRecord processedRecord : α) (checkpoint : Option χ) (onSuccess : List Hook) :
    Counts 1 (d.resolveRecord writeResult rawRecord processedRecord checkpoint onSuccess :
      Delivery ℓ α χ (CommitOutcome χ)) :=
  counts_quiet_bind (unbooked_successHookFor _ _ _) fun _ => d.counts_resolveWriteResult hclean _ _ _ _

/-- Resolving a batch counts each of its records once. -/
theorem counts_resolveRecords {items : List (PendingWrite α χ × WriteResult)}
    (hclean : ∀ item ∈ items, item.2.Clean) :
    Counts items.length (d.resolveRecords items : Delivery ℓ α χ (List (CommitOutcome χ))) := by
  induction items with
  | nil => exact counts_of_quiet (within_ret _)
  | cons item items ih =>
    refine counts_bind (d.counts_resolveRecord (hclean item List.mem_cons_self) _ _ _ _)
      (n := items.length) (fun _ => ?_) (by rw [List.length_cons]; push_cast; ring)
    exact counts_bind_quiet (ih fun item h => hclean item (List.mem_cons_of_mem _ h)) fun _ =>
      within_ret _

omit [DecidableEq α] in
/-- The write results of a batch are clean. -/
theorem yields_writeBatch (records : List α) :
    (d.writeBatch records : Delivery ℓ α χ (List WriteResult)).Yields CleanWrites
      fun results _ => ∀ wr ∈ results, wr.Clean := by
  refine yields_of_last fun _ => yields_bind (P := fun results => ∀ wr ∈ results,
    wr.Clean) (fun w₀ w => safe_invoke.mpr fun r hr => ⟨trivial, ?_⟩) fun results h =>
      yields_of_last fun _ => yields_ret h
  cases r with
  | error exc => trivial
  | ok results => exact hr _ _ rfl

omit [DecidableEq α] in
/-- The result of a write is clean where the writer's answers are. -/
theorem yields_writeOne (record : α) :
    (d.writeOne record : Delivery ℓ α χ WriteResult).Yields CleanWrites
      fun result _ => result.Clean := by
  refine yields_of_last fun _ => yields_bind (P := WriteResult.Clean)
    (fun w₀ w => safe_invoke.mpr fun r hr => ⟨trivial, ?_⟩) fun result h =>
      yields_of_last fun _ => yields_ret h
  cases r with
  | error exc => trivial
  | ok result => exact hr _ _ rfl

omit [DecidableEq α] in
/-- Writing under the handler of sink errors: either the results are clean and nothing is counted yet,
or the handler has counted the records. -/
theorem books_catchSink {γ : Type} {p : Delivery ℓ α χ (Option γ)} {P : γ → Prop} (hp : Unbooked p)
    (hyields : p.Yields CleanWrites fun r _ => ∃ v, r = some v ∧ P v)
    {handler : Exc → Delivery ℓ α χ (Option γ)} {n : ℤ}
    (hhandler : ∀ exc, (handler exc).Books (deliveryBooks ℓ α χ) CleanWrites
      fun r d => r = none ∧ d = -n) :
    (catchSinkException p handler).Books (deliveryBooks ℓ α χ) CleanWrites
      fun r d => (r = none ∧ d = -n) ∨ ∃ v, r = some v ∧ d = 0 ∧ P v := by
  refine books_bind (δ := fun r d => d = 0 ∧ ∀ a, r = .ok a → ∃ v, a = some v ∧ P v)
    (books_attempt_quiet hp hyields (fun a ha => ⟨rfl, fun v hv => Except.ok.inj hv ▸ ha⟩)
      fun e => ⟨rfl, fun v hv => absurd hv (by simp)⟩) fun r d hd => ?_
  obtain ⟨rfl, hd⟩ := hd
  cases r with
  | ok a =>
    obtain ⟨v, rfl, hv⟩ := hd a rfl
    exact books_ret (.inr ⟨v, rfl, rfl, hv⟩)
  | error exc =>
    refine books_ite (books_ite (books_raise _) ((hhandler exc).mono fun r d h => .inl ?_))
      (books_raise _)
    exact ⟨h.1, by rw [h.2, zero_add]⟩

variable [DecidableEq χ]

/-! ## Single records -/

/-- A record that goes no further is counted once, as dropped or as errored. -/
theorem counts_dropRecord (checkpoint : Option χ) (failure : Option (MiddlewareFailure α))
    (onSuccess : List Hook) (hookRecord : Option α) :
    Counts 1 (d.dropRecord checkpoint failure onSuccess hookRecord : Delivery ℓ α χ Unit) := by
  have hdropped : ∀ hooks, Counts 1 (do
      countDropped 1
      note (.settled checkpoint .dropped)
      d.finishDrop checkpoint hooks : Delivery ℓ α χ Unit) := fun _ =>
    counts_bind_quiet (counts_dropped 1) fun _ => within_bind (unbooked_note _) fun _ =>
      d.unbooked_finishDrop _ _
  unfold dropRecord
  dsimp only
  cases failure with
  | none =>
    cases hookRecord with
    | none => exact hdropped _
    | some record => exact counts_quiet_bind (unbooked_successHookFor _ _ _) fun _ => hdropped _
  | some f =>
    cases hookRecord with
    | none | some record =>
      refine counts_quiet_bind (unbooked_successHookFor _ _ _) fun hooks =>
        counts_quiet_bind (d.unbooked_writeToDlq _ _ _ _ _ _) fun routed =>
          counts_bind_quiet (counts_errored 1) fun _ => within_ite ?_ ?_
      · exact within_bind (unbooked_discardSuccessHooks _) fun _ =>
          within_ite (within_raise _) (within_ret ())
      · exact within_bind (unbooked_note _) fun _ => d.unbooked_finishDrop _ _

/-- A record whose write raised is counted once, as errored. -/
theorem counts_writeFailed (exc : Exc) (result rawRecord : α) (checkpoint : Option χ)
    (onSuccess : List Hook) :
    Counts 1 (d.writeFailed exc result rawRecord checkpoint onSuccess : Delivery ℓ α χ Unit) := by
  refine counts_quiet_bind (d.unbooked_writeToDlq _ _ _ _ _ _) fun routed =>
    counts_bind_quiet (counts_errored 1) fun _ => within_ite ?_ ?_
  · refine within_bind (unbooked_note _) fun _ =>
      within_bind (d.unbooked_saveCheckpoint _) fun _ => within_ite ?_ (unbooked_discardSuccessHooks _)
    exact within_bind (unbooked_successHookFor _ _ _) fun _ => unbooked_runHooks _
  · exact within_bind (unbooked_discardSuccessHooks _) fun _ => within_raise _

/-- A processed record that is written at once is counted once. -/
theorem counts_writeProcessedRecord (result : Option α) (rawRecord : α) (checkpoint : Option χ)
    (failure : Option (MiddlewareFailure α)) (onSuccess : List Hook) :
    Counts 1 (d.writeProcessedRecord result rawRecord checkpoint failure onSuccess :
      Delivery ℓ α χ Unit) := by
  unfold writeProcessedRecord
  cases result with
  | none => exact d.counts_dropRecord _ _ _ _
  | some result =>
    refine books_bind (books_catchSink (P := WriteResult.Clean) (n := 1)
      (within_bind (d.unbooked_writeOne _) fun _ => within_ret _)
      (yields_bind (d.yields_writeOne _) fun r hr => yields_ret ⟨r, rfl, hr⟩)
      fun exc => books_bind (d.counts_writeFailed _ _ _ _ _) fun _ n hn =>
        books_ret ⟨rfl, by rw [hn, add_zero]⟩) fun written n hn => ?_
    rcases hn with ⟨rfl, rfl⟩ | ⟨writeResult, rfl, rfl, hclean⟩
    · exact books_ret (by simp)
    · simp only [zero_add]
      exact counts_bind_quiet (d.counts_resolveRecord hclean _ _ _ _) fun _ =>
        d.unbooked_commitOutcome _

/-! ## Batches of records -/

omit [DecidableEq α] in
/-- The write of a batch: either its results are clean, or all its records are counted already. -/
theorem books_writeItems (batch : List (PendingWrite α χ)) :
    (d.writeItems batch : Delivery ℓ α χ (Option (List WriteResult))).Books (deliveryBooks ℓ α χ)
      CleanWrites fun r n => (r = none ∧ n = -(batch.length : ℤ)) ∨
        ∃ results, r = some results ∧ n = 0 ∧ ∀ wr ∈ results, wr.Clean :=
  books_catchSink (P := fun results => ∀ wr ∈ results, wr.Clean)
    (within_bind (d.unbooked_writeBatch _) fun _ => within_ret _)
    (yields_bind (d.yields_writeBatch _) fun r hr => yields_ret ⟨r, rfl, hr⟩)
    fun exc => books_bind (d.counts_flushBatchOutcomesFrom _ _ _) fun _ n hn =>
      books_ret ⟨rfl, by rw [hn, add_zero]⟩

omit [DecidableEq χ] [DecidableEq α] in
/-- What follows the check of the number of results only has to be right for that number. -/
theorem counts_validated {kind : String} {expected actual : ℕ} {p : Delivery ℓ α χ Unit} {n : ℤ}
    (hp : actual = expected → Counts n p) :
    Counts n (do validateWriteResultCount kind expected actual; p) := by
  unfold validateWriteResultCount
  split
  · exact books_raise _
  · rename_i hlength
    exact hp (not_ne_iff.mp hlength)

/-- Resolving a batch against as many clean results counts the whole batch. -/
theorem counts_resolveZip {batch : List (PendingWrite α χ)} {results : List WriteResult}
    (hlength : results.length = batch.length) (hclean : ∀ wr ∈ results, wr.Clean) :
    Counts batch.length (do
      let outcomes ← d.resolveRecords (batch.zip results)
      d.commitOutcomes outcomes : Delivery ℓ α χ Unit) := by
  have hresolve : Counts (batch.zip results).length
      (d.resolveRecords (batch.zip results) : Delivery ℓ α χ (List (CommitOutcome χ))) :=
    d.counts_resolveRecords fun item hitem => hclean _ (List.of_mem_zip hitem).2
  rw [List.length_zip, hlength, min_self] at hresolve
  exact counts_bind_quiet hresolve fun _ => d.unbooked_commitOutcomesFrom _ _

omit [DecidableEq α] [DecidableEq χ] in
/-- The marks of a batch that was written count nothing. -/
theorem unbooked_noteWritten (batch : List (PendingWrite α χ)) :
    Unbooked (noteWritten batch : Delivery ℓ α χ Unit) := by
  induction batch with
  | nil => exact within_ret ()
  | cons item items ih => exact within_bind (unbooked_note _) fun _ => ih

/-- A flush counts every record of its batch. -/
theorem counts_flushBatch (batch : List (PendingWrite α χ)) :
    Counts batch.length (d.flushBatch batch : Delivery ℓ α χ Unit) := by
  refine books_bind (d.books_writeItems batch) fun written n hn => ?_
  rcases hn with ⟨rfl, rfl⟩ | ⟨results, rfl, rfl, hclean⟩
  · exact books_ret (by simp)
  · simp only [zero_add]
    refine counts_validated fun hlength => counts_ite ?_ (d.counts_resolveZip hlength hclean)
    exact counts_bind_quiet (counts_written _) fun _ => within_bind (unbooked_noteWritten _) fun _ =>
      d.unbooked_commitSuccessFrom _ _

omit [DecidableEq χ] in
/-- Collecting the hooks of a batch counts nothing and keeps the length of the batch. -/
theorem books_collectHooks (items : List (PendingWrite α χ)) :
    (collectHooks items : Delivery ℓ α χ (List (PendingWrite α χ))).Books (deliveryBooks ℓ α χ)
      CleanWrites fun batch n => n = 0 ∧ batch.length = items.length := by
  induction items with
  | nil => exact books_ret ⟨rfl, rfl⟩
  | cons item items ih =>
    refine books_quiet_bind (unbooked_successHookFor _ _ _) fun hooks => books_bind ih fun batch n hn =>
      books_ret ⟨by rw [hn.1, add_zero], ?_⟩
    rw [List.length_cons, List.length_cons, hn.2]

/-- The direct flush counts every record that it is given. -/
theorem counts_flushBatchDirect (items : List (PendingWrite α χ)) :
    Counts items.length (d.flushBatchDirect items : Delivery ℓ α χ Unit) := by
  unfold flushBatchDirect
  cases items with
  | nil => exact counts_of_quiet (within_ret ())
  | cons item items =>
    rw [List.isEmpty_cons, if_neg (by simp)]
    refine books_bind (books_collectHooks _) fun batch n hn => ?_
    obtain ⟨rfl, hbatch⟩ := hn
    simp only [zero_add, ← hbatch]
    refine books_bind (d.books_writeItems batch) fun written n hn => ?_
    rcases hn with ⟨rfl, rfl⟩ | ⟨results, rfl, rfl, hclean⟩
    · exact books_ret (by simp)
    · simp only [zero_add]
      refine counts_validated fun hlength => counts_ite ?_ (d.counts_resolveZip hlength hclean)
      refine counts_bind_quiet (counts_written _) fun _ => within_bind (unbooked_noteWritten _) fun _ => ?_
      exact within_ite (within_bind (d.unbooked_saveBatchCheckpoint _ _) fun _ => unbooked_runHooks _)
        (unbooked_runHooks _)

/-! ## Batches of the batch lane -/

omit [DecidableEq χ] in
/-- Running the hooks of all pairs counts nothing. -/
theorem unbooked_runPairHooks (pairs : List (α × α)) :
    Unbooked (runPairHooks pairs : Delivery ℓ α χ Unit) := by
  induction pairs with
  | nil => exact within_ret ()
  | cons pair pairs ih =>
    exact within_bind (unbooked_successHookFor _ _ _) fun _ => within_bind (unbooked_runHooks _) fun _ => ih

omit [DecidableEq χ] in
/-- Collecting the hooks of the dropped records counts nothing. -/
theorem unbooked_droppedHooks (records : List α) :
    Unbooked (droppedHooks records : Delivery ℓ α χ (List (List Hook))) := by
  induction records with
  | nil => exact within_ret _
  | cons record records ih =>
    exact within_bind (unbooked_successHookFor _ _ _) fun _ => within_bind ih fun _ => within_ret _

omit [DecidableEq χ] in
/-- Resolving the pairs of a batch counts each of them once. -/
theorem counts_resolvePairs (checkpoint : Option χ) {items : List ((α × α) × WriteResult)}
    (hclean : ∀ item ∈ items, item.2.Clean) :
    Counts items.length (d.resolvePairs checkpoint items :
      Delivery ℓ α χ (List (CommitOutcome χ))) := by
  induction items with
  | nil => exact counts_of_quiet (within_ret _)
  | cons item items ih =>
    refine counts_quiet_bind (unbooked_successHookFor _ _ _) fun _ =>
      counts_bind (d.counts_resolveRecord (hclean item List.mem_cons_self) _ _ _ _)
        (n := items.length) (fun _ => ?_) (by rw [List.length_cons]; push_cast; ring)
    exact counts_bind_quiet (ih fun item h => hclean item (List.mem_cons_of_mem _ h)) fun _ =>
      within_ret _

/-- A batch whose write raised is counted as errored, pair by pair. -/
theorem counts_batchWriteFailed (exc : Exc) (checkpoint : Option χ) (batchSize : ℕ)
    (pairs : List (α × α)) (hooks : List Hook) :
    Counts pairs.length (d.batchWriteFailed exc checkpoint batchSize pairs hooks :
      Delivery ℓ α χ Unit) := by
  refine counts_quiet_bind (d.unbooked_routeAll _ _ _ _ _) fun routed =>
    counts_bind_quiet (counts_errored _) fun _ => within_ite ?_ (within_raise _)
  exact within_bind (d.unbooked_saveBatchCheckpoint _ _) fun _ => within_bind (unbooked_runHooks _) fun _ =>
    within_ite (unbooked_runPairHooks _) (within_ret ())

/-- Writing the pairs of a batch counts each of them once. -/
theorem counts_writePairs (checkpoint : Option χ) (batchSize : ℕ) (pairs : List (α × α))
    (dropped : List (List Hook)) :
    Counts pairs.length (d.writePairs checkpoint batchSize pairs dropped : Delivery ℓ α χ Unit) := by
  refine books_bind (books_catchSink (P := fun results => ∀ wr ∈ results, wr.Clean)
    (n := pairs.length) (within_bind (d.unbooked_writeBatch _) fun _ => within_ret _)
    (yields_bind (d.yields_writeBatch _) fun r hr => yields_ret ⟨r, rfl, hr⟩)
    fun exc => books_bind (d.counts_batchWriteFailed _ _ _ _ _) fun _ n hn =>
      books_ret ⟨rfl, by rw [hn, add_zero]⟩) fun written n hn => ?_
  rcases hn with ⟨rfl, rfl⟩ | ⟨results, rfl, rfl, hclean⟩
  · exact books_ret (by simp)
  · simp only [zero_add]
    refine counts_validated fun hlength => ?_
    have hresolve : Counts (pairs.zip results).length
        (d.resolvePairs checkpoint (pairs.zip results) : Delivery ℓ α χ (List (CommitOutcome χ))) :=
      d.counts_resolvePairs _ fun item hitem => hclean _ (List.of_mem_zip hitem).2
    rw [List.length_zip, hlength, min_self] at hresolve
    exact counts_bind_quiet hresolve fun _ => d.unbooked_commitOutcomesFrom _ _

/-- The records of a filtered batch that are still there and those that were dropped make up the
batch. -/
theorem counts_writeBatchFiltered (results : List (Option α)) (rawBatch : List α)
    (checkpoint : Option χ) :
    Counts rawBatch.length (d.writeBatchFiltered results rawBatch checkpoint :
      Delivery ℓ α χ Unit) := by
  unfold writeBatchFiltered
  split
  · exact books_raise _
  · rename_i hlength
    rw [ne_eq, not_not] at hlength
    have hpairs : (activeItems rawBatch results).length ≤ results.length :=
      (List.length_filterMap_le _ _).trans (by rw [List.length_zip]; exact min_le_right _ _)
    refine counts_bind (counts_dropped _) (n := (activeItems rawBatch results).length) (fun _ => ?_)
      (by rw [hlength]; omega)
    refine counts_quiet_bind (unbooked_droppedHooks _) fun hooks => ?_
    by_cases hempty : (activeItems rawBatch results).isEmpty = true
    · rw [if_pos hempty, List.isEmpty_iff.mp hempty]
      exact counts_of_quiet (within_bind (d.unbooked_saveBatchCheckpoint _ _) fun _ => unbooked_runHooks _)
    · rw [if_neg hempty]
      exact d.counts_writePairs _ _ _ _

omit [DecidableEq α] in
/-- A batch that failed in a middleware is counted as errored, record by record. -/
theorem counts_writeBatchMiddlewareFailure (rawBatch : List α) (checkpoint : Option χ)
    (failure : BatchFailure) :
    Counts rawBatch.length (d.writeBatchMiddlewareFailure rawBatch checkpoint failure :
      Delivery ℓ α χ Unit) := by
  refine counts_bind_quiet (counts_errored _) fun _ => within_ite ?_
    (within_ite (d.unbooked_saveBatchCheckpoint _ _) (within_raise _))
  exact within_bind (d.unbooked_routeAll _ _ _ _ _) fun _ =>
    within_ite (d.unbooked_saveBatchCheckpoint _ _) (within_ret ())

/-- Whatever became of a batch, every raw record is counted once. -/
theorem counts_writeBatchResult (result : BatchProcessResult α) (rawBatch : List α)
    (checkpoint : Option χ) :
    Counts rawBatch.length (d.writeBatchResult result rawBatch checkpoint :
      Delivery ℓ α χ Unit) := by
  unfold writeBatchResult
  cases result.failure with
  | some failure => exact d.counts_writeBatchMiddlewareFailure _ _ _
  | none =>
    refine counts_ite ?_ (d.counts_writeBatchFiltered _ _ _)
    have hpairs := d.counts_writePairs (ℓ := ℓ) checkpoint rawBatch.length
      (rawBatch.map fun r => (r, r)) []
    rwa [List.length_map] at hpairs

/-! ## Queued records -/

end Records

end DeliveryEngine

/-- The records that are consumed and neither counted nor queued for the writer. -/
def RunState.outstanding (s : RunState ℓ α χ) : ℤ := s.balance - s.pendingWrites.length

/-- It is not settled that the pending writes are left to an owner. -/
def RunState.Unowned (s : RunState ℓ α χ) : Prop := s.pendingWriteUsesOwner ≠ some true

/-- The change of the outstanding records by programs that may queue records and flush the queue;
`uses` says whether they would leave the queue to an owner. -/
def queueBooks (ℓ α χ : Type) (uses : Bool) : Grading ℤ (RunState ℓ α χ) where
  rel d s s' := s'.outstanding = s.outstanding + d ∧ s'.intake = s.intake ∧ s'.lane = s.lane ∧
    (uses = false → s.Unowned → s'.Unowned)
  refl s := ⟨by ring, rfl, rfl, fun _ h => h⟩
  trans h h' := ⟨by rw [h'.1, h.1]; ring, h'.2.1.trans h.2.1, h'.2.2.1.trans h.2.2.1,
    fun huses hs => h'.2.2.2 huses (h.2.2.2 huses hs)⟩

variable {uses : Bool}

/-- When the program returns, it has counted or queued so many records. -/
abbrev Takes (uses : Bool) (n : ℤ) (p : Delivery ℓ α χ β) : Prop :=
  p.Moves (queueBooks ℓ α χ uses) CleanWrites (-n)

/-- The delivery of records leaves the queue alone. -/
theorem queueBooks_of_deliveryBooks (d : ℤ) (s s' : RunState ℓ α χ)
    (h : (deliveryBooks ℓ α χ).rel d s s') : (queueBooks ℓ α χ uses).rel d s s' := by
  obtain ⟨hbalance, hintake, hqueue⟩ := h
  have hwrites : s'.pendingWrites = s.pendingWrites := congrArg QueueState.pendingWrites hqueue
  refine ⟨?_, hintake, congrArg QueueState.lane hqueue, fun _ hs => ?_⟩
  · rw [RunState.outstanding, RunState.outstanding, hbalance, hwrites]
    ring
  · rw [RunState.Unowned, show s'.pendingWriteUsesOwner = s.pendingWriteUsesOwner from
      congrArg QueueState.pendingWriteUsesOwner hqueue]
    exact hs

/-- What is counted need not be queued. -/
theorem takes_of_counts {p : Delivery ℓ α χ β} {n : ℤ} (hp : Counts n p) : Takes uses n p :=
  hp.coarsen (f := id) queueBooks_of_deliveryBooks fun _ _ h => h

/-- The records that the parts of a sequence take add up. -/
theorem takes_bind {p : Delivery ℓ α χ β} {γ : Type} {f : β → Delivery ℓ α χ γ} {m n k : ℤ}
    (hp : Takes uses m p) (hf : ∀ a, Takes uses n (f a)) (hk : m + n = k) : Takes uses k (p >>= f) :=
  moves_bind hp hf (by rw [← hk]; ring)

/-- A change of the state that is neither one of the counters nor one of the queue. -/
theorem takes_modify {f : RunState ℓ α χ → RunState ℓ α χ}
    (houtstanding : ∀ s, (f s).outstanding = s.outstanding) (hintake : ∀ s, (f s).intake = s.intake)
    (hlane : ∀ s, (f s).lane = s.lane) (huses : ∀ s, uses = false → s.Unowned → (f s).Unowned) :
    Takes uses 0 (modify f : Delivery ℓ α χ Unit) :=
  books_modify (d := 0) (fun s => ⟨by rw [houtstanding]; ring, hintake s, hlane s, huses s⟩) rfl

/-- A program off the books takes no record. -/
theorem takes_of_quiet {p : Delivery ℓ α χ β} (hp : Unbooked p) : Takes uses 0 p :=
  takes_of_counts (counts_of_quiet hp)

namespace DeliveryEngine

variable (d : DeliveryEngine α χ) [DecidableEq α] [DecidableEq χ]

variable (uses) in
/-- A flush counts what it takes from the queue, and leaves the queue empty. -/
theorem safe_flushPendingWritesOnce_books (w₀ w : RunWorld ℓ α χ) :
    (d.flushPendingWritesOnce : Delivery ℓ α χ Unit).Safe
      (.alone CleanWrites (fun _ _ => True) True)
      (fun _ _ w' => (queueBooks ℓ α χ uses).rel 0 w.state w'.state ∧ w'.state.pendingWrites = [])
      (fun _ _ _ => True) w₀ w := by
  unfold flushPendingWritesOnce
  rw [safe_bind, safe_read]
  split
  · rename_i hempty
    exact ⟨(queueBooks ℓ α χ uses).refl _, List.isEmpty_iff.mp hempty⟩
  · rw [safe_bind]
    refine safe_modify_of fun w₁ hstate _ => ?_
    refine (d.counts_flushBatch w.state.pendingWrites w₀ w₁).mono (fun _ _ w₂ h => ?_)
      fun _ _ _ h => h
    obtain ⟨n, rfl, hbalance, hintake, hqueue⟩ := h
    have hnil : w₂.state.pendingWrites = [] :=
      (congrArg QueueState.pendingWrites hqueue).trans (by rw [hstate]; rfl)
    refine ⟨⟨?_, hintake.trans (by rw [hstate]; rfl), (congrArg QueueState.lane hqueue).trans ?_, ?_⟩, hnil⟩
    · rw [RunState.outstanding, RunState.outstanding, hbalance, hnil,
        show w₁.state.balance = w.state.balance by rw [hstate]; rfl]
      simp only [List.length_nil]
      ring
    · rw [hstate]
      rfl
    · intro _ hunowned
      rw [RunState.Unowned, show w₂.state.pendingWriteUsesOwner = w₁.state.pendingWriteUsesOwner from
        congrArg QueueState.pendingWriteUsesOwner hqueue, hstate]
      exact hunowned

omit [DecidableEq α] [DecidableEq χ] in
/-- Closing the owner takes no record. -/
theorem takes_closePendingWriteOwner : Takes uses 0 (closePendingWriteOwner : Delivery ℓ α χ Unit) := by
  unfold closePendingWriteOwner
  have hmodify : ∀ f : PendingWriteOwner → PendingWriteOwner,
      Takes uses 0 (modifyOwner f : Delivery ℓ α χ Unit) := fun _ =>
    takes_modify (fun _ => rfl) (fun _ => rfl) (fun _ => rfl) fun _ _ h => h
  refine takes_bind (takes_of_quiet within_read) (fun s => books_ite (takes_of_quiet (within_ret ()))
    (takes_bind (hmodify _) (fun _ => takes_bind
      (takes_of_quiet (within_attempt (unbooked_invoke _))) (fun joined => takes_bind
        (takes_of_quiet within_read) (fun s => takes_bind (takes_modify (fun _ => rfl) (fun _ => rfl)
          (fun _ => rfl) fun _ _ h => h) (fun _ => ?_) (zero_add 0)) (zero_add 0)) (zero_add 0)) (zero_add 0)))
    (zero_add 0)
  cases s.pendingWriteError with
  | some exc => exact books_raise _
  | none => exact takes_of_quiet (within_ofExcept _)

variable (uses) in
/-- `flush_pending_writes` counts everything that is queued. -/
theorem safe_flushPendingWrites_books (w₀ w : RunWorld ℓ α χ) :
    (d.flushPendingWrites : Delivery ℓ α χ Unit).Safe
      (.alone CleanWrites (fun _ _ => True) True)
      (fun _ _ w' => (queueBooks ℓ α χ uses).rel 0 w.state w'.state ∧ w'.state.pendingWrites = [])
      (fun _ _ _ => True) w₀ w := by
  unfold flushPendingWrites
  rw [safe_bind]
  have hclose : Takes uses 0 (closePendingWriteOwner : Delivery ℓ α χ Unit) :=
    takes_closePendingWriteOwner
  refine (hclose w₀ w).mono (fun _ w₁ w' h => ?_) fun _ _ _ h => h
  obtain ⟨n, rfl, hclosed⟩ := h
  refine (d.safe_flushPendingWritesOnce_books uses w₁ w').mono (fun _ _ w'' h => ⟨?_, h.2⟩)
    fun _ _ _ h => h
  simpa using (queueBooks ℓ α χ uses).trans hclosed h.1

/-- Flushing takes no record: what is queued was taken before. -/
theorem takes_flushPendingWrites : Takes uses 0 (d.flushPendingWrites : Delivery ℓ α χ Unit) :=
  fun w₀ w => (d.safe_flushPendingWrites_books uses w₀ w).mono (fun _ _ _ h => ⟨0, rfl, h.1⟩)
    fun _ _ _ h => h

omit [DecidableEq α] [DecidableEq χ] in
/-- Queueing a record takes it. -/
theorem takes_appendPendingWrite (item : PendingWrite α χ) :
    Takes uses 1 (appendPendingWrite item : Delivery ℓ α χ ℕ) := by
  refine takes_bind (m := 1) (n := 0) (books_modify (d := -1) (fun s => ⟨?_, rfl, rfl, fun _ h => h⟩) rfl)
    (fun _ => takes_of_quiet (within_bind within_read fun _ => within_ret _)) (add_zero 1)
  simp only [RunState.outstanding, RunState.balance, List.length_append, List.length_singleton]
  push_cast
  ring

omit [DecidableEq α] [DecidableEq χ] in
/-- Waiting for room in the queue takes no record. -/
theorem takes_waitForPendingWriteCapacity (fuel writerBatchSize : ℕ) :
    Takes uses 0 (waitForPendingWriteCapacity fuel writerBatchSize : Delivery ℓ α χ Unit) := by
  refine takes_of_quiet (within_iterate trivial (fun _ => ?_) _ _)
  refine within_bind within_read fun s => within_ite ?_ (within_ret _)
  cases s.pendingWriteError with
  | some exc => exact within_raise _
  | none => exact within_bind (unbooked_invoke _) fun _ => within_ret _

omit [DecidableEq α] [DecidableEq χ] in
/-- Finding out whether there is an owner takes no record. -/
theorem takes_pendingWriteUsesOwner (writerBatchSize : ℕ) :
    Takes (d.usesPendingWriteOwner writerBatchSize) 0
      (d.pendingWriteUsesOwner writerBatchSize : Delivery ℓ α χ Bool) := by
  refine takes_bind (takes_of_quiet within_read) (fun s => ?_) (zero_add 0)
  cases s.pendingWriteUsesOwner with
  | some owned => exact takes_of_quiet (within_ret _)
  | none =>
    exact takes_bind (takes_modify (fun _ => rfl) (fun _ => rfl) (fun _ => rfl) fun _ huses _ => by
      simp [RunState.Unowned, huses]) (fun _ => takes_of_quiet (within_ret _)) (zero_add 0)

/-- A processed record is queued, and the queue may be flushed. -/
theorem takes_queueSuccessRecord (fuel : ℕ) (result rawRecord : α) (checkpoint : Option χ)
    (writerBatchSize : ℕ) (onSuccess : List Hook) :
    Takes (d.usesPendingWriteOwner writerBatchSize) 1
      (d.queueSuccessRecord fuel result rawRecord checkpoint writerBatchSize onSuccess :
        Delivery ℓ α χ Unit) := by
  have howner : ∀ f : PendingWriteOwner → PendingWriteOwner,
      Takes (d.usesPendingWriteOwner writerBatchSize) 0 (modifyOwner f : Delivery ℓ α χ Unit) := fun _ =>
    takes_modify (fun _ => rfl) (fun _ => rfl) (fun _ => rfl) fun _ _ h => h
  have hensure : Takes (d.usesPendingWriteOwner writerBatchSize) 0
      (d.ensurePendingWriteOwner writerBatchSize : Delivery ℓ α χ Unit) :=
    takes_bind (takes_of_quiet within_read) (fun _ => books_ite (takes_of_quiet (within_ret ()))
      (books_ite (takes_of_quiet (within_ret ()))
        (takes_modify (fun _ => rfl) (fun _ => rfl) (fun _ => rfl) fun _ _ h => h))) (zero_add 0)
  refine takes_bind (takes_of_quiet (unbooked_successHookFor _ _ _)) (fun _ => takes_bind
    (d.takes_pendingWriteUsesOwner _) (fun _ => books_ite ?_ ?_) (zero_add 1)) (zero_add 1)
  · refine takes_bind hensure (fun _ => takes_bind (howner _) (fun _ => takes_bind
      (takes_appendPendingWrite _) (n := 0) (fun _ => takes_bind (howner _) (fun _ => books_ite ?_ ?_)
        (zero_add 0)) (add_zero 1)) (zero_add 1)) (zero_add 1)
    · exact takes_waitForPendingWriteCapacity _ _
    · exact takes_of_quiet (within_ret ())
  · exact takes_bind (takes_appendPendingWrite _) (n := 0) (fun _ => books_ite
      d.takes_flushPendingWrites (takes_of_quiet (within_ret ()))) (add_zero 1)

/-- Without an owner the pending writes grow by the record, until they make a batch. -/
theorem safe_queueSuccessRecord_length {writerBatchSize : ℕ}
    (huses : d.usesPendingWriteOwner writerBatchSize = false) (fuel : ℕ) (result rawRecord : α)
    (checkpoint : Option χ) (onSuccess : List Hook) {w₀ w : RunWorld ℓ α χ}
    (hunowned : w.state.Unowned) :
    (d.queueSuccessRecord fuel result rawRecord checkpoint writerBatchSize onSuccess :
      Delivery ℓ α χ Unit).Safe (.alone CleanWrites (fun _ _ => True) True)
      (fun _ _ w' => w'.state.pendingWrites.length =
        if writerBatchSize ≤ w.state.pendingWrites.length + 1 then 0
        else w.state.pendingWrites.length + 1) (fun _ _ _ => True) w₀ w := by
  have happend : ∀ (item : PendingWrite α χ) {w₀ w₁ : RunWorld ℓ α χ},
      w₁.state.pendingWrites = w.state.pendingWrites → (do
        let pendingCount ← appendPendingWrite item
        if writerBatchSize ≤ pendingCount then d.flushPendingWrites else pure () :
        Delivery ℓ α χ Unit).Safe (.alone CleanWrites (fun _ _ => True) True)
        (fun _ _ w' => w'.state.pendingWrites.length =
          if writerBatchSize ≤ w.state.pendingWrites.length + 1 then 0
          else w.state.pendingWrites.length + 1) (fun _ _ _ => True) w₀ w₁ := by
    intro item w₀ w₁ hwrites
    unfold appendPendingWrite
    rw [safe_bind, safe_bind]
    refine safe_modify_of fun w₂ hstate _ => ?_
    have hlength : w₂.state.pendingWrites.length = w.state.pendingWrites.length + 1 := by
      rw [hstate, ← hwrites]
      exact List.length_append
    rw [safe_bind, safe_read]
    refine (safe_ret _).mpr ?_
    rw [hlength]
    split
    · refine (d.safe_flushPendingWrites_books false w₀ w₂).mono (fun _ _ w' h => ?_) fun _ _ _ h => h
      rw [h.2]
      rfl
    · exact hlength
  unfold queueSuccessRecord
  rw [safe_bind]
  refine safe_successHookFor fun hooks w₁ hqueue _ => ?_
  have hwrites : w₁.state.pendingWrites = w.state.pendingWrites :=
    congrArg QueueState.pendingWrites hqueue
  have huses₁ : w₁.state.pendingWriteUsesOwner = w.state.pendingWriteUsesOwner :=
    congrArg QueueState.pendingWriteUsesOwner hqueue
  unfold pendingWriteUsesOwner
  rw [safe_bind, safe_bind, safe_read]
  cases hcached : w₁.state.pendingWriteUsesOwner with
  | some owned =>
    cases owned with
    | true => exact absurd (huses₁.symm.trans hcached) hunowned
    | false => exact happend _ hwrites
  | none =>
    rw [safe_bind]
    refine safe_modify_of fun w₂ hstate _ => (safe_ret _).mpr ?_
    rw [huses]
    exact happend _ (by rw [hstate]; exact hwrites)

/-- Without an owner, queueing a record takes it, and the queue grows by it or is flushed. -/
theorem safe_queueSuccessRecord_books {writerBatchSize : ℕ}
    (huses : d.usesPendingWriteOwner writerBatchSize = false) (fuel : ℕ) (result rawRecord : α)
    (checkpoint : Option χ) (onSuccess : List Hook) {w₀ w : RunWorld ℓ α χ}
    (hunowned : w.state.Unowned) :
    (d.queueSuccessRecord fuel result rawRecord checkpoint writerBatchSize onSuccess :
      Delivery ℓ α χ Unit).Safe (.alone CleanWrites (fun _ _ => True) True)
      (fun _ _ w' => (queueBooks ℓ α χ false).rel (-1) w.state w'.state ∧
        w'.state.pendingWrites.length =
          if writerBatchSize ≤ w.state.pendingWrites.length + 1 then 0
          else w.state.pendingWrites.length + 1) (fun _ _ _ => True) w₀ w := by
  have htakes := d.takes_queueSuccessRecord (ℓ := ℓ) fuel result rawRecord checkpoint
    writerBatchSize onSuccess
  rw [huses] at htakes
  refine (safe_and_returns (htakes w₀ w) (d.safe_queueSuccessRecord_length huses fuel result rawRecord
    checkpoint onSuccess hunowned)).mono (fun _ _ w' h => ?_) fun _ _ _ h => h
  obtain ⟨⟨n, rfl, hrel⟩, hlength⟩ := h
  exact ⟨hrel, hlength⟩

/-- A processed record that is dropped or queued is taken once. -/
theorem takes_queueProcessedRecord (fuel : ℕ) (result : Option α) (rawRecord : α)
    (checkpoint : Option χ) (writerBatchSize : ℕ) (failure : Option (MiddlewareFailure α))
    (onSuccess : List Hook) :
    Takes (d.usesPendingWriteOwner writerBatchSize) 1
      (d.queueProcessedRecord fuel result rawRecord checkpoint writerBatchSize failure
        onSuccess : Delivery ℓ α χ Unit) := by
  unfold queueProcessedRecord
  cases result with
  | none => exact takes_of_counts (d.counts_dropRecord _ _ _ _)
  | some result => exact d.takes_queueSuccessRecord _ _ _ _ _ _

/-- Dispatching the result of a record takes the record once. -/
theorem takes_dispatchProcessedResult (fuel : ℕ) (result : Option α) (rawRecord : α)
    (checkpoint : Option χ) (writerBatchSize : ℕ) (failure : Option (MiddlewareFailure α))
    (onSuccess : List Hook) :
    Takes (d.usesPendingWriteOwner writerBatchSize) 1
      (d.dispatchProcessedResult fuel result rawRecord checkpoint writerBatchSize failure
        onSuccess : Delivery ℓ α χ Unit) := by
  unfold dispatchProcessedResult
  cases result with
  | none => exact takes_of_counts (d.counts_dropRecord _ _ _ _)
  | some result =>
    exact books_ite (takes_of_counts (d.counts_writeProcessedRecord _ _ _ _ _))
      (d.takes_queueSuccessRecord _ _ _ _ _ _)

end DeliveryEngine

end AgoraEtl
