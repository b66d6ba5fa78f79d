import AgoraEtl.Effect.Guarded
import AgoraEtl.Delivery.Frame

/-!
# The run fence in front of every side effect

With a bound run fence, the delivery engine writes to the sink, to the dead-letter sink and to the
checkpoint store only after the fence has been validated, and calls nothing in between but
`current_checkpoint()` of the source.  The check stands in the transport, in the dead-letter writer and
in the checkpoint manager; every program of the engine is composed of these, so that no failure policy
and no swallowed error leads past it.
-/

namespace AgoraEtl

open Effect Program

variable {ℓ α χ β : Type}

/-- The call reaches a sink, the dead-letter sink or the checkpoint store. -/
def Call.isSideEffect : Call α χ → Bool
  | .await (.write _) => true
  | .await (.writeBatch _) => true
  | .await (.writeArrowBatch _) => true
  | .await (.dlqWrite _) => true
  | .await (.saveCheckpoint _ _) => true
  | _ => false

/-- The answer says that the fence still holds. -/
def Call.confirmsFence : (o : Call α χ) → o.Ret → Bool
  | .await .validateFence, .ok active => active
  | _, _ => false

/-- The call asks the source for its checkpoint. -/
def Call.isCurrentCheckpoint : Call α χ → Bool
  | .await .currentCheckpoint => true
  | _ => false

/-- Side effects need a fence that was just confirmed. -/
def fencing (α χ : Type) : Discipline (Call α χ) Call.Ret where
  guarded := Call.isSideEffect
  opens := Call.confirmsFence
  keeps := Call.isCurrentCheckpoint

/-- The program validates the run fence before every side effect. -/
abbrev Fenced (p : Delivery ℓ α χ β) : Prop := p.Guarded (fencing α χ)

/-- A side effect is not one of the calls that may stand between the check and another. -/
theorem fencing_keeps (o : Call α χ) (h : o.isSideEffect = true) : o.isCurrentCheckpoint = false := by
  cases o with
  | await a => cases a <;> first | rfl | exact absurd h (by simp [Call.isSideEffect])
  | _ => rfl

section Basics

variable {gate : Bool}

/-- An awaited operation that is no side effect needs no check. -/
theorem guarded_invoke {a : Await α χ} (h : (Call.await a).isSideEffect = false) :
    (invoke a : Delivery ℓ α χ a.Value).GuardedFrom (fencing α χ) gate :=
  guarded_bind (guarded_perform h) fun r => guarded_ofExcept r

/-- A side effect behind an open gate. -/
theorem guarded_sideEffect (a : Await α χ) :
    (invoke a : Delivery ℓ α χ a.Value).GuardedFrom (fencing α χ) true :=
  ⟨fun _ => rfl, fun r => by cases r <;> trivial⟩

/-- `try … except Exception` is fenced if the body and the handler are. -/
theorem guarded_catchException {p : Delivery ℓ α χ β} {handler : Exc → Delivery ℓ α χ β}
    (hp : Fenced p) (hhandler : ∀ exc, Fenced (handler exc)) : Fenced (catchException p handler) := by
  refine guarded_bind (guarded_attempt hp) fun r => ?_
  cases r with
  | ok v => exact guarded_ret v
  | error exc => exact guarded_ite (hhandler exc) (guarded_raise exc)

/-- The handler of sink errors is fenced if its two parts are. -/
theorem guarded_catchSinkException {p : Delivery ℓ α χ β} {handler : Exc → Delivery ℓ α χ β}
    (hp : Fenced p) (hhandler : ∀ exc, Fenced (handler exc)) :
    Fenced (catchSinkException p handler) :=
  guarded_catchException hp fun exc => guarded_ite (guarded_raise exc) (hhandler exc)

/-- Counting is no side effect. -/
theorem guarded_count (f : Metrics → Metrics) : Fenced (count f : Delivery ℓ α χ Unit) :=
  guarded_modify _

/-- The check of the number of results calls nothing. -/
theorem guarded_validateWriteResultCount (kind : String) (expected actual : ℕ) :
    Fenced (validateWriteResultCount kind expected actual : Delivery ℓ α χ Unit) :=
  guarded_ite (guarded_raise _) (guarded_ret ())

/-- Success hooks are callbacks of the pipeline, not side effects of the engine. -/
theorem guarded_runHooks (hooks : List Hook) : Fenced (runHooks hooks : Delivery ℓ α χ Unit) := by
  induction hooks with
  | nil => exact guarded_ret ()
  | cons hook hooks ih => exact guarded_bind (guarded_invoke rfl) fun _ => ih

/-- Discard callbacks are no side effects of the engine either. -/
theorem guarded_runDiscards (entries : List Registration) :
    Fenced (runDiscards entries : Delivery ℓ α χ Unit) := by
  induction entries with
  | nil => exact guarded_ret ()
  | cons entry entries ih =>
    unfold runDiscards
    cases entry.onDiscard with
    | none => exact ih
    | some discard =>
      exact guarded_bind (guarded_catchException (guarded_invoke rfl) fun _ => guarded_ret ())
        fun _ => ih

section Hooks

variable [DecidableEq α]

/-- Taking the registered hooks of a record calls nothing. -/
theorem guarded_popRegistrations (record : α) :
    Fenced (popRegistrations record : Delivery ℓ α χ (List Registration)) :=
  guarded_bind guarded_read fun _ => guarded_bind (guarded_modify _) fun _ => guarded_ret _

/-- Taking the hooks of several records calls nothing. -/
theorem guarded_popSuccessHooks (records : List α) :
    Fenced (popSuccessHooks records : Delivery ℓ α χ (List Hook)) := by
  induction records with
  | nil => exact guarded_ret _
  | cons record records ih =>
    exact guarded_bind (guarded_popRegistrations record) fun _ =>
      guarded_bind ih fun _ => guarded_ret _

/-- Discarding hooks calls only their discard callbacks. -/
theorem guarded_discardSuccessHooks (records : List α) :
    Fenced (discardSuccessHooks records : Delivery ℓ α χ Unit) := by
  induction records with
  | nil => exact guarded_ret ()
  | cons record records ih =>
    exact guarded_bind (guarded_popRegistrations record) fun entries =>
      guarded_bind (guarded_runDiscards entries) fun _ => ih

/-- Collecting the hooks of a record calls nothing. -/
theorem guarded_successHookFor (rawRecord : α) (processedRecord : Option α)
    (onSuccess : List Hook) :
    Fenced (successHookFor rawRecord processedRecord onSuccess : Delivery ℓ α χ (List Hook)) := by
  unfold successHookFor
  cases processedRecord with
  | none => exact guarded_bind (guarded_popSuccessHooks _) fun _ => guarded_ret _
  | some processed => exact guarded_bind (guarded_popSuccessHooks _) fun _ => guarded_ret _

/-- Handing the hooks of a record on to another one calls nothing. -/
theorem guarded_transferSuccessHooks (sourceRecord targetRecord : α) :
    Fenced (transferSuccessHooks sourceRecord targetRecord : Delivery ℓ α χ Unit) :=
  guarded_ite (guarded_ret ()) (guarded_modify _)

end Hooks

end Basics

namespace DeliveryEngine

variable {d : DeliveryEngine α χ} (hfence : d.runFence = true)

include hfence

/-! ## The three places of the check -/

/-- What follows the check starts with an open gate. -/
theorem guarded_assertRunFenceActive {p : Unit → Delivery ℓ α χ β}
    (hp : (p ()).GuardedFrom (fencing α χ) true) :
    Fenced (d.assertRunFenceActive >>= p) := by
  unfold assertRunFenceActive
  rw [if_pos hfence]
  refine ⟨fun hside => absurd hside (by simp [fencing, Call.isSideEffect]), fun r => ?_⟩
  cases r with
  | error exc => trivial
  | ok active =>
    cases active with
    | false => trivial
    | true => exact hp

/-- A write comes right after the check of the fence. -/
theorem guarded_writeOne (record : α) :
    Fenced (d.writeOne record : Delivery ℓ α χ WriteResult) :=
  guarded_assertRunFenceActive hfence <| guarded_bind (guarded_sideEffect _) fun _ =>
    guarded_bind (guarded_modify _) fun _ => guarded_ret _

/-- The write of a batch comes right after the check. -/
theorem guarded_writeBatch (records : List α) :
    Fenced (d.writeBatch records : Delivery ℓ α χ (List WriteResult)) :=
  guarded_assertRunFenceActive hfence <| guarded_bind (guarded_sideEffect _) fun _ =>
    guarded_bind (guarded_modify _) fun _ => guarded_ret _

/-- The write of an Arrow batch comes right after the check. -/
theorem guarded_writeArrowBatch (rows : List α) :
    Fenced (d.writeArrowBatch rows : Delivery ℓ α χ Unit) :=
  guarded_assertRunFenceActive hfence <| guarded_bind (guarded_sideEffect _) fun _ =>
    guarded_modify _

/-- The checkpoint of the source may be asked for between the check and the dead-letter write. -/
theorem guarded_attemptDlqWrite (stage : String) (exc : Exc) (record : α)
    (processedRecord : Option α) (checkpoint : Option χ) (middleware : Option String) :
    Fenced (d.attemptDlqWrite stage exc record processedRecord checkpoint middleware :
      Delivery ℓ α χ Unit) := by
  refine guarded_assertRunFenceActive hfence ?_
  cases checkpoint with
  | some value => exact guarded_sideEffect _
  | none =>
    refine ⟨fun _ => rfl, fun r => ?_⟩
    cases r with
    | error exc => trivial
    | ok value => exact guarded_sideEffect _

/-- The save of a checkpoint comes right after the check. -/
theorem guarded_persistCheckpoint (checkpoint : Checkpoint χ) (batchSize : ℕ) :
    Fenced (d.persistCheckpoint checkpoint batchSize : Delivery ℓ α χ Unit) := by
  have hsave : (do
      invoke (.saveCheckpoint d.checkpointKey checkpoint)
      pure true : Delivery ℓ α χ Bool).GuardedFrom (fencing α χ) true :=
    guarded_bind (guarded_sideEffect _) fun _ => guarded_ret _
  refine guarded_bind (guarded_catchException (guarded_assertRunFenceActive hfence ?_) fun exc => ?_)
    fun saved => ?_
  · by_cases hstore : d.checkpointStore = false
    · simp only [hstore, if_true]
      exact guarded_raise _
    · simp only [hstore]
      exact hsave
  · exact guarded_bind (guarded_modify _) fun _ => guarded_ite (guarded_ret _) (guarded_raise _)
  · exact guarded_bind (guarded_modify _) fun _ => guarded_ite (guarded_modify _) (guarded_ret ())

/-! ## Failures and checkpoints -/

/-- Every attempt to capture a failure checks the fence for itself. -/
theorem guarded_writeToDlq (stage : String) (exc : Exc) (record : α) (processedRecord : Option α)
    (checkpoint : Option χ) (middleware : Option String) :
    Fenced (d.writeToDlq stage exc record processedRecord checkpoint middleware :
      Delivery ℓ α χ Bool) := by
  refine guarded_ite (guarded_bind (guarded_note _) fun _ => guarded_ret _) ?_
  refine guarded_bind (guarded_attempt (guarded_attemptDlqWrite hfence _ _ _ _ _ _)) fun written => ?_
  cases written with
  | ok u => exact guarded_ret _
  | error dlqExc =>
    refine guarded_ite ?_ (guarded_bind (guarded_note _) fun _ => guarded_raise _)
    exact guarded_bind (guarded_modify _) fun _ => guarded_bind (guarded_note _) fun _ =>
      guarded_ite (guarded_raise _) (guarded_ret _)

/-- The save that is due is fenced. -/
theorem guarded_persistPending (pending : Option (Checkpoint χ × ℕ)) :
    Fenced (d.persistPending pending : Delivery ℓ α χ Unit) := by
  cases pending with
  | none => exact guarded_ret ()
  | some p => exact guarded_persistCheckpoint hfence p.1 p.2

/-- The end of a commit is fenced. -/
theorem guarded_finishCommit (pending : PendingCommit χ) :
    Fenced (d.finishCommit pending : Delivery ℓ α χ Unit) :=
  guarded_bind (guarded_persistPending hfence _) fun _ => guarded_runHooks _

/-- Every error of a write result is routed behind a check of its own. -/
theorem guarded_routeErrors (rawRecord processedRecord : α) (checkpoint : Option χ)
    (errors : List Exc) :
    Fenced (d.routeErrors rawRecord processedRecord checkpoint errors : Delivery ℓ α χ Bool) := by
  induction errors with
  | nil => exact guarded_ret _
  | cons err errors ih =>
    exact guarded_bind (guarded_writeToDlq hfence _ _ _ _ _ _) fun _ =>
      guarded_bind ih fun _ => guarded_ret _

/-- Every pair of a failed batch is routed behind a check of its own. -/
theorem guarded_routeAll (stage : String) (exc : Exc) (checkpoint : Option χ)
    (middleware : Option String) (pairs : List (α × Option α)) :
    Fenced (d.routeAll stage exc checkpoint middleware pairs : Delivery ℓ α χ Bool) := by
  induction pairs with
  | nil => exact guarded_ret _
  | cons pair pairs ih =>
    exact guarded_bind (guarded_writeToDlq hfence _ _ _ _ _ _) fun _ =>
      guarded_bind ih fun _ => guarded_ret _

/-- Resolving a write result routes its errors, and nothing else. -/
theorem guarded_resolveWriteResult (writeResult : WriteResult) (rawRecord processedRecord : α)
    (checkpoint : Option χ) (onSuccess : List Hook) :
    Fenced (d.resolveWriteResult writeResult rawRecord processedRecord checkpoint onSuccess :
      Delivery ℓ α χ (CommitOutcome χ)) := by
  have hend : ∀ (f : Metrics → Metrics) (how : Handling) (outcome : CommitOutcome χ),
      Fenced (do
        count f
        note (.settled checkpoint how)
        pure outcome : Delivery ℓ α χ (CommitOutcome χ)) := fun _ _ _ =>
    guarded_bind (guarded_count _) fun _ => guarded_bind (guarded_note _) fun _ => guarded_ret _
  unfold resolveWriteResult
  cases writeResult.errors with
  | nil => exact guarded_ite (hend _ _ _) (hend _ _ _)
  | cons first rest =>
    refine guarded_bind (guarded_routeErrors hfence _ _ _ _) fun routedAll =>
      guarded_bind (guarded_count _) fun _ => ?_
    refine guarded_ite (guarded_bind (guarded_count _) fun _ => ?_) ?_
    all_goals
      exact guarded_ite (guarded_bind (guarded_note _) fun _ => guarded_ret _) (guarded_ret _)

section Checkpoints

variable [DecidableEq χ]

omit hfence in
/-- Counting for the checkpoint cadence calls nothing. -/
theorem guarded_countProcessed (value : χ) (n : ℕ) :
    Fenced (d.countProcessed value n : Delivery ℓ α χ (Option (Checkpoint χ))) :=
  guarded_bind (guarded_modify _) fun _ => guarded_bind guarded_read fun _ =>
    guarded_ite (guarded_ret _) (guarded_ret _)

omit hfence in
/-- Asking whether a checkpoint is due reaches no store. -/
theorem guarded_prepareCheckpoint (value : Option χ) :
    Fenced (d.prepareCheckpoint value : Delivery ℓ α χ (Option (Checkpoint χ))) := by
  unfold prepareCheckpoint
  split
  · exact guarded_countProcessed _ _
  · exact guarded_ret _

/-- A record's checkpoint is saved behind the check. -/
theorem guarded_saveCheckpoint (value : Option χ) :
    Fenced (d.saveCheckpoint value : Delivery ℓ α χ Unit) :=
  guarded_bind (guarded_prepareCheckpoint value) fun _ => guarded_persistPending hfence _

/-- A batch's checkpoint is saved behind the check. -/
theorem guarded_saveBatchCheckpoint (value : Option χ) (batchSize : ℕ) :
    Fenced (d.saveBatchCheckpoint value batchSize : Delivery ℓ α χ Unit) := by
  unfold saveBatchCheckpoint
  split
  · exact guarded_ite (guarded_ret ()) (guarded_bind (guarded_countProcessed _ _) fun _ =>
      guarded_persistPending hfence _)
  · exact guarded_ret ()

omit hfence in
/-- Adding a record to a commit reaches no store. -/
theorem guarded_preparePending (pending : PendingCommit χ) (checkpoint : Option χ)
    (hooks : List Hook) :
    Fenced (d.preparePending pending checkpoint hooks : Delivery ℓ α χ (PendingCommit χ)) := by
  refine guarded_bind (guarded_prepareCheckpoint checkpoint) fun prepared => ?_
  cases prepared with
  | none => exact guarded_ret _
  | some c => exact guarded_ret _

/-- The commit of one record is fenced. -/
theorem guarded_commitCheckpointed (checkpoint : Option χ) (onSuccess : List Hook) :
    Fenced (d.commitCheckpointed checkpoint onSuccess : Delivery ℓ α χ Unit) :=
  guarded_bind (guarded_saveCheckpoint hfence checkpoint) fun _ => guarded_runHooks _

/-- The commit of an outcome is fenced. -/
theorem guarded_commitOutcome (outcome : CommitOutcome χ) :
    Fenced (d.commitOutcome outcome : Delivery ℓ α χ Unit) := by
  cases outcome with
  | erroredUnrouted exc => exact guarded_ite (guarded_raise _) (guarded_ret ())
  | written checkpoint onSuccess => exact guarded_commitCheckpointed hfence _ _
  | dropped checkpoint onSuccess => exact guarded_commitCheckpointed hfence _ _
  | erroredRouted checkpoint onSuccess => exact guarded_commitCheckpointed hfence _ _

/-- The commit of the outcomes of a batch is fenced. -/
theorem guarded_commitOutcomesFrom (pending : PendingCommit χ) (outcomes : List (CommitOutcome χ)) :
    Fenced (d.commitOutcomesFrom pending outcomes : Delivery ℓ α χ Unit) := by
  induction outcomes generalizing pending with
  | nil => exact guarded_finishCommit hfence pending
  | cons outcome outcomes ih =>
    cases outcome with
    | erroredUnrouted exc =>
      exact guarded_bind (guarded_finishCommit hfence pending) fun _ =>
        guarded_ite (guarded_raise _) (ih _)
    | written checkpoint onSuccess =>
      exact guarded_bind (guarded_preparePending _ _ _) fun _ => ih _
    | dropped checkpoint onSuccess =>
      exact guarded_bind (guarded_preparePending _ _ _) fun _ => ih _
    | erroredRouted checkpoint onSuccess =>
      exact guarded_bind (guarded_preparePending _ _ _) fun _ => ih _

/-- The records of a batch whose write raised are routed and committed behind checks. -/
theorem guarded_flushBatchOutcomesFrom (exc : Exc) (pending : PendingCommit χ)
    (items : List (PendingWrite α χ)) :
    Fenced (d.flushBatchOutcomesFrom exc pending items : Delivery ℓ α χ Unit) := by
  induction items generalizing pending with
  | nil => exact guarded_finishCommit hfence pending
  | cons item items ih =>
    refine guarded_bind (guarded_writeToDlq hfence _ _ _ _ _ _) fun routed =>
      guarded_bind (guarded_count _) fun _ => guarded_ite ?_ ?_
    · exact guarded_bind (guarded_note _) fun _ =>
        guarded_bind (guarded_preparePending _ _ _) fun _ => ih _
    · exact guarded_bind (guarded_finishCommit hfence pending) fun _ => guarded_raise _

/-- The commit of a dropped record is fenced. -/
theorem guarded_finishDrop (checkpoint : Option χ) (onSuccess : List Hook) :
    Fenced (d.finishDrop checkpoint onSuccess : Delivery ℓ α χ Unit) :=
  guarded_bind guarded_read fun _ => guarded_bind (guarded_note _) fun _ =>
    guarded_bind (guarded_saveCheckpoint hfence _) fun _ => guarded_runHooks _

end Checkpoints

/-! ## Single records and pending writes -/

section Records

variable [DecidableEq α]

/-- Resolving one record of a batch is fenced. -/
theorem guarded_resolveRecord (writeResult : WriteResult) (rawRecord processedRecord : α)
    (checkpoint : Option χ) (onSuccess : List Hook) :
    Fenced (d.resolveRecord writeResult rawRecord processedRecord checkpoint onSuccess :
      Delivery ℓ α χ (CommitOutcome χ)) :=
  guarded_bind (guarded_successHookFor _ _ _) fun _ => guarded_resolveWriteResult hfence _ _ _ _ _

/-- Resolving a batch is fenced. -/
theorem guarded_resolveRecords (items : List (PendingWrite α χ × WriteResult)) :
    Fenced (d.resolveRecords items : Delivery ℓ α χ (List (CommitOutcome χ))) := by
  induction items with
  | nil => exact guarded_ret _
  | cons item items ih =>
    exact guarded_bind (guarded_resolveRecord hfence _ _ _ _ _) fun _ =>
      guarded_bind ih fun _ => guarded_ret _

variable [DecidableEq χ]

/-- A record that goes no further is routed and committed behind checks. -/
theorem guarded_dropRecord (checkpoint : Option χ) (failure : Option (MiddlewareFailure α))
    (onSuccess : List Hook) (hookRecord : Option α) :
    Fenced (d.dropRecord checkpoint failure onSuccess hookRecord : Delivery ℓ α χ Unit) := by
  have hdropped : ∀ hooks, Fenced (do
      countDropped 1
      note (.settled checkpoint .dropped)
      d.finishDrop checkpoint hooks : Delivery ℓ α χ Unit) := fun _ =>
    guarded_bind (guarded_count _) fun _ => guarded_bind (guarded_note _) fun _ =>
      guarded_finishDrop hfence _ _
  unfold dropRecord
  dsimp only
  cases failure with
  | none =>
    cases hookRecord with
    | none => exact hdropped _
    | some record => exact guarded_bind (guarded_successHookFor _ _ _) fun _ => hdropped _
  | some f =>
    cases hookRecord with
    | none | some record =>
      refine guarded_bind (guarded_successHookFor _ _ _) fun hooks =>
        guarded_bind (guarded_writeToDlq hfence _ _ _ _ _ _) fun routed =>
          guarded_bind (guarded_count _) fun _ => guarded_ite ?_ ?_
      · exact guarded_bind (guarded_discardSuccessHooks _) fun _ =>
          guarded_ite (guarded_raise _) (guarded_ret ())
      · exact guarded_bind (guarded_note _) fun _ => guarded_finishDrop hfence _ _

/-- A record whose write raised is routed and committed behind checks. -/
theorem guarded_writeFailed (exc : Exc) (result rawRecord : α) (checkpoint : Option χ)
    (onSuccess : List Hook) :
    Fenced (d.writeFailed exc result rawRecord checkpoint onSuccess : Delivery ℓ α χ Unit) := by
  refine guarded_bind (guarded_writeToDlq hfence _ _ _ _ _ _) fun routed =>
    guarded_bind (guarded_count _) fun _ => guarded_ite ?_ ?_
  · refine guarded_bind (guarded_note _) fun _ =>
      guarded_bind (guarded_saveCheckpoint hfence _) fun _ => guarded_ite ?_ ?_
    · exact guarded_bind (guarded_successHookFor _ _ _) fun _ => guarded_runHooks _
    · exact guarded_discardSuccessHooks _
  · exact guarded_bind (guarded_discardSuccessHooks _) fun _ => guarded_raise _

/-- Writing a processed record at once is fenced. -/
theorem guarded_writeProcessedRecord (result : Option α) (rawRecord : α) (checkpoint : Option χ)
    (failure : Option (MiddlewareFailure α)) (onSuccess : List Hook) :
    Fenced (d.writeProcessedRecord result rawRecord checkpoint failure onSuccess :
      Delivery ℓ α χ Unit) := by
  unfold writeProcessedRecord
  cases result with
  | none => exact guarded_dropRecord hfence _ _ _ _
  | some result =>
    refine guarded_bind (guarded_catchSinkException
      (guarded_bind (guarded_writeOne hfence _) fun _ => guarded_ret _) fun exc =>
        guarded_bind (guarded_writeFailed hfence _ _ _ _ _) fun _ => guarded_ret _) fun written => ?_
    cases written with
    | none => exact guarded_ret ()
    | some writeResult =>
      exact guarded_bind (guarded_resolveRecord hfence _ _ _ _ _) fun _ =>
        guarded_commitOutcome hfence _

omit hfence [DecidableEq α] [DecidableEq χ] in
/-- The marks of a batch are no calls. -/
theorem guarded_noteWritten (batch : List (PendingWrite α χ)) :
    Fenced (noteWritten batch : Delivery ℓ α χ Unit) := by
  induction batch with
  | nil => exact guarded_ret ()
  | cons item items ih => exact guarded_bind (guarded_note _) fun _ => ih

omit [DecidableEq α] in
/-- The commit of a batch that was written as a whole is fenced. -/
theorem guarded_commitSuccessFrom (pending : PendingCommit χ) (items : List (PendingWrite α χ)) :
    Fenced (d.commitSuccessFrom pending items : Delivery ℓ α χ Unit) := by
  induction items generalizing pending with
  | nil => exact guarded_finishCommit hfence pending
  | cons item items ih => exact guarded_bind (guarded_preparePending _ _ _) fun _ => ih _

omit [DecidableEq α] in
/-- The write of a batch under the handler of sink errors is fenced. -/
theorem guarded_writeItems (batch : List (PendingWrite α χ)) :
    Fenced (d.writeItems batch : Delivery ℓ α χ (Option (List WriteResult))) :=
  guarded_catchSinkException (guarded_bind (guarded_writeBatch hfence _) fun _ => guarded_ret _)
    fun _ => guarded_bind (guarded_flushBatchOutcomesFrom hfence _ _ _) fun _ => guarded_ret _

/-- A flush is fenced from its write to its last commit. -/
theorem guarded_flushBatch (batch : List (PendingWrite α χ)) :
    Fenced (d.flushBatch batch : Delivery ℓ α χ Unit) := by
  refine guarded_bind (guarded_writeItems hfence _) fun written => ?_
  cases written with
  | none => exact guarded_ret ()
  | some writeResults =>
    refine guarded_bind (guarded_validateWriteResultCount _ _ _) fun _ => guarded_ite ?_ ?_
    · exact guarded_bind (guarded_count _) fun _ => guarded_bind (guarded_noteWritten _) fun _ =>
        guarded_commitSuccessFrom hfence _ _
    · exact guarded_bind (guarded_resolveRecords hfence _) fun _ =>
        guarded_commitOutcomesFrom hfence _ _

/-- Flushing what is queued is fenced. -/
theorem guarded_flushPendingWritesOnce :
    Fenced (d.flushPendingWritesOnce : Delivery ℓ α χ Unit) :=
  guarded_bind guarded_read fun _ => guarded_ite (guarded_ret ())
    (guarded_bind (guarded_modify _) fun _ => guarded_flushBatch hfence _)

omit hfence [DecidableEq α] [DecidableEq χ] in
/-- Closing the owner reaches no sink. -/
theorem guarded_closePendingWriteOwner : Fenced (closePendingWriteOwner : Delivery ℓ α χ Unit) := by
  refine guarded_bind guarded_read fun _ => guarded_ite (guarded_ret ()) ?_
  refine guarded_bind (guarded_modify _) fun _ =>
    guarded_bind (guarded_attempt (guarded_invoke rfl)) fun joined =>
      guarded_bind guarded_read fun s => guarded_bind (guarded_modify _) fun _ => ?_
  cases s.pendingWriteError with
  | some exc => exact guarded_raise _
  | none => exact guarded_ofExcept _

/-- `flush_pending_writes` is fenced, whether there is an owner or not. -/
theorem guarded_flushPendingWrites : Fenced (d.flushPendingWrites : Delivery ℓ α χ Unit) :=
  guarded_bind guarded_closePendingWriteOwner fun _ => guarded_flushPendingWritesOnce hfence

/-- The pending-write owner validates the fence before every side effect of its own. -/
theorem guarded_runPendingWriteOwner (fuel : ℕ) :
    Fenced (d.runPendingWriteOwner fuel : Delivery ℓ α χ Unit) := by
  have hflush : Fenced (do d.ownerFlush; pure (.inl ()) : Delivery ℓ α χ (Unit ⊕ Unit)) :=
    guarded_bind (guarded_bind (guarded_flushPendingWritesOnce hfence) fun _ => guarded_modify _)
      fun _ => guarded_ret _
  have hround : ∀ u, Fenced (d.pendingWriteOwnerRound u : Delivery ℓ α χ (Unit ⊕ Unit)) := fun _ =>
    guarded_bind guarded_read fun _ => guarded_ite (guarded_ret _) (guarded_ite hflush
      (guarded_bind (guarded_attempt (guarded_invoke rfl)) fun _ =>
        guarded_bind (guarded_modify _) fun _ => guarded_bind (guarded_ofExcept _) fun _ =>
          guarded_bind guarded_read fun _ =>
            guarded_ite hflush (guarded_ite hflush (guarded_ret _))))
  refine guarded_bind (guarded_attempt (guarded_iterate hround _ _)) fun ended => ?_
  cases ended with
  | ok u => exact guarded_modify _
  | error exc => cases exc <;> exact guarded_modify _

omit hfence [DecidableEq α] [DecidableEq χ] in
/-- Waiting for room in the queue reaches no sink. -/
theorem guarded_waitForPendingWriteCapacity (fuel writerBatchSize : ℕ) :
    Fenced (waitForPendingWriteCapacity fuel writerBatchSize : Delivery ℓ α χ Unit) := by
  refine guarded_iterate (fun _ => guarded_bind guarded_read fun s => guarded_ite ?_ (guarded_ret _))
    _ _
  cases s.pendingWriteError with
  | some exc => exact guarded_raise _
  | none => exact guarded_bind (guarded_invoke rfl) fun _ => guarded_ret _

/-- Queueing a record is fenced, with the flush that may follow. -/
theorem guarded_queueSuccessRecord (fuel : ℕ) (result rawRecord : α) (checkpoint : Option χ)
    (writerBatchSize : ℕ) (onSuccess : List Hook) :
    Fenced (d.queueSuccessRecord fuel result rawRecord checkpoint writerBatchSize onSuccess :
      Delivery ℓ α χ Unit) := by
  have happend : ∀ item, Fenced (appendPendingWrite item : Delivery ℓ α χ ℕ) := fun _ =>
    guarded_bind (guarded_modify _) fun _ => guarded_bind guarded_read fun _ => guarded_ret _
  have hensure : Fenced (d.ensurePendingWriteOwner writerBatchSize : Delivery ℓ α χ Unit) :=
    guarded_bind guarded_read fun _ => guarded_ite (guarded_ret ())
      (guarded_ite (guarded_ret ()) (guarded_modify _))
  have huses : Fenced (d.pendingWriteUsesOwner writerBatchSize : Delivery ℓ α χ Bool) := by
    refine guarded_bind guarded_read fun s => ?_
    cases s.pendingWriteUsesOwner with
    | some uses => exact guarded_ret _
    | none => exact guarded_bind (guarded_modify _) fun _ => guarded_ret _
  refine guarded_bind (guarded_successHookFor _ _ _) fun _ => guarded_bind huses fun _ =>
    guarded_ite ?_ ?_
  · exact guarded_bind hensure fun _ => guarded_bind (guarded_modify _) fun _ =>
      guarded_bind (happend _) fun _ => guarded_bind (guarded_modify _) fun _ =>
        guarded_ite (guarded_waitForPendingWriteCapacity _ _) (guarded_ret ())
  · exact guarded_bind (happend _) fun _ =>
      guarded_ite (guarded_flushPendingWrites hfence) (guarded_ret ())

/-- A processed record is dropped or queued behind checks. -/
theorem guarded_queueProcessedRecord (fuel : ℕ) (result : Option α) (rawRecord : α)
    (checkpoint : Option χ) (writerBatchSize : ℕ) (failure : Option (MiddlewareFailure α))
    (onSuccess : List Hook) :
    Fenced (d.queueProcessedRecord fuel result rawRecord checkpoint writerBatchSize failure onSuccess :
      Delivery ℓ α χ Unit) := by
  unfold queueProcessedRecord
  cases result with
  | none => exact guarded_dropRecord hfence _ _ _ _
  | some result => exact guarded_queueSuccessRecord hfence _ _ _ _ _ _

/-- Dispatching a record is fenced, whether it is dropped, written or queued. -/
theorem guarded_dispatchProcessedResult (fuel : ℕ) (result : Option α) (rawRecord : α)
    (checkpoint : Option χ) (writerBatchSize : ℕ) (failure : Option (MiddlewareFailure α))
    (onSuccess : List Hook) :
    Fenced (d.dispatchProcessedResult fuel result rawRecord checkpoint writerBatchSize failure
      onSuccess : Delivery ℓ α χ Unit) := by
  unfold dispatchProcessedResult
  cases result with
  | none => exact guarded_dropRecord hfence _ _ _ _
  | some result =>
    exact guarded_ite (guarded_writeProcessedRecord hfence _ _ _ _ _)
      (guarded_queueSuccessRecord hfence _ _ _ _ _ _)

omit hfence [DecidableEq χ] in
/-- Collecting the hooks of a batch calls nothing. -/
theorem guarded_collectHooks (items : List (PendingWrite α χ)) :
    Fenced (collectHooks items : Delivery ℓ α χ (List (PendingWrite α χ))) := by
  induction items with
  | nil => exact guarded_ret _
  | cons item items ih =>
    exact guarded_bind (guarded_successHookFor _ _ _) fun _ => guarded_bind ih fun _ => guarded_ret _

/-- The direct flush is fenced. -/
theorem guarded_flushBatchDirect (items : List (PendingWrite α χ)) :
    Fenced (d.flushBatchDirect items : Delivery ℓ α χ Unit) := by
  refine guarded_ite (guarded_ret ()) (guarded_bind (guarded_collectHooks _) fun batch =>
    guarded_bind (guarded_writeItems hfence _) fun written => ?_)
  cases written with
  | none => exact guarded_ret ()
  | some writeResults =>
    refine guarded_bind (guarded_validateWriteResultCount _ _ _) fun _ => guarded_ite ?_ ?_
    · exact guarded_bind (guarded_count _) fun _ => guarded_bind (guarded_noteWritten _) fun _ =>
        guarded_ite (guarded_bind (guarded_saveBatchCheckpoint hfence _ _) fun _ => guarded_runHooks _)
          (guarded_runHooks _)
    · exact guarded_bind (guarded_resolveRecords hfence _) fun _ =>
        guarded_commitOutcomesFrom hfence _ _

end Records

/-! ## Batch writes -/

section Batches

variable [DecidableEq α]

omit hfence in
/-- Running the hooks of all pairs is no side effect of the engine. -/
theorem guarded_runPairHooks (pairs : List (α × α)) :
    Fenced (runPairHooks pairs : Delivery ℓ α χ Unit) := by
  induction pairs with
  | nil => exact guarded_ret ()
  | cons pair pairs ih =>
    exact guarded_bind (guarded_successHookFor _ _ _) fun _ =>
      guarded_bind (guarded_runHooks _) fun _ => ih

omit hfence in
/-- Collecting the hooks of the dropped records calls nothing. -/
theorem guarded_droppedHooks (records : List α) :
    Fenced (droppedHooks records : Delivery ℓ α χ (List (List Hook))) := by
  induction records with
  | nil => exact guarded_ret _
  | cons record records ih =>
    exact guarded_bind (guarded_successHookFor _ _ _) fun _ => guarded_bind ih fun _ => guarded_ret _

/-- Resolving the pairs of a batch is fenced. -/
theorem guarded_resolvePairs (checkpoint : Option χ) (items : List ((α × α) × WriteResult)) :
    Fenced (d.resolvePairs checkpoint items : Delivery ℓ α χ (List (CommitOutcome χ))) := by
  induction items with
  | nil => exact guarded_ret _
  | cons item items ih =>
    exact guarded_bind (guarded_successHookFor _ _ _) fun _ =>
      guarded_bind (guarded_resolveRecord hfence _ _ _ _ _) fun _ =>
        guarded_bind ih fun _ => guarded_ret _

variable [DecidableEq χ]

/-- A batch whose write raised is routed and saved behind checks. -/
theorem guarded_batchWriteFailed (exc : Exc) (checkpoint : Option χ) (batchSize : ℕ)
    (pairs : List (α × α)) (hooks : List Hook) :
    Fenced (d.batchWriteFailed exc checkpoint batchSize pairs hooks : Delivery ℓ α χ Unit) := by
  refine guarded_bind (guarded_routeAll hfence _ _ _ _ _) fun routed =>
    guarded_bind (guarded_count _) fun _ => guarded_ite ?_ (guarded_raise _)
  exact guarded_bind (guarded_saveBatchCheckpoint hfence _ _) fun _ =>
    guarded_bind (guarded_runHooks _) fun _ =>
      guarded_ite (guarded_runPairHooks _) (guarded_ret ())

/-- Writing the pairs of a batch is fenced. -/
theorem guarded_writePairs (checkpoint : Option χ) (batchSize : ℕ) (pairs : List (α × α))
    (dropped : List (List Hook)) :
    Fenced (d.writePairs checkpoint batchSize pairs dropped : Delivery ℓ α χ Unit) := by
  refine guarded_bind (guarded_catchSinkException
    (guarded_bind (guarded_writeBatch hfence _) fun _ => guarded_ret _) fun exc =>
      guarded_bind (guarded_batchWriteFailed hfence _ _ _ _ _) fun _ => guarded_ret _)
    fun written => ?_
  cases written with
  | none => exact guarded_ret ()
  | some writeResults =>
    exact guarded_bind (guarded_validateWriteResultCount _ _ _) fun _ =>
      guarded_bind (guarded_resolvePairs hfence _ _) fun _ => guarded_commitOutcomesFrom hfence _ _

/-- Writing what a chain has left of a batch is fenced. -/
theorem guarded_writeBatchFiltered (results : List (Option α)) (rawBatch : List α)
    (checkpoint : Option χ) :
    Fenced (d.writeBatchFiltered results rawBatch checkpoint : Delivery ℓ α χ Unit) := by
  refine guarded_ite (guarded_raise _) (guarded_bind (guarded_count _) fun _ =>
    guarded_bind (guarded_droppedHooks _) fun hooks => guarded_ite ?_ ?_)
  · exact guarded_bind (guarded_saveBatchCheckpoint hfence _ _) fun _ => guarded_runHooks _
  · exact guarded_writePairs hfence _ _ _ _

omit [DecidableEq α] in
/-- A batch that failed in a middleware is routed and saved behind checks. -/
theorem guarded_writeBatchMiddlewareFailure (rawBatch : List α) (checkpoint : Option χ)
    (failure : BatchFailure) :
    Fenced (d.writeBatchMiddlewareFailure rawBatch checkpoint failure : Delivery ℓ α χ Unit) := by
  refine guarded_bind (guarded_count _) fun _ =>
    guarded_ite ?_ (guarded_ite (guarded_saveBatchCheckpoint hfence _ _) (guarded_raise _))
  exact guarded_bind (guarded_routeAll hfence _ _ _ _ _) fun _ =>
    guarded_ite (guarded_saveBatchCheckpoint hfence _ _) (guarded_ret ())

/-- Whatever became of a batch, its delivery is fenced. -/
theorem guarded_writeBatchResult (result : BatchProcessResult α) (rawBatch : List α)
    (checkpoint : Option χ) :
    Fenced (d.writeBatchResult result rawBatch checkpoint : Delivery ℓ α χ Unit) := by
  unfold writeBatchResult
  cases result.failure with
  | some failure => exact guarded_writeBatchMiddlewareFailure hfence _ _ _
  | none =>
    exact guarded_ite (guarded_writePairs hfence _ _ _ _) (guarded_writeBatchFiltered hfence _ _ _)

end Batches

end DeliveryEngine

end AgoraEtl
