import AgoraEtl.Effect.Tasks
import AgoraEtl.Delivery.Frame

/-!
# The pending-write owner beside a lane

A lane whose writer is batched and flushed on an interval shares the run state with the pending-write
owner.  The two tasks form a system in which either may run while the other one waits.  The owner only
takes the pending writes and delivers them, so that between two calls of the lane the world changes
as little as `Background` says; `withOwner_sound` turns this into the rule for whole runs.
-/

namespace AgoraEtl

open Effect Program

variable {ℓ α χ β : Type}

/-! ## The system of the two tasks -/

/-- An answer a call can be given: waiting for an event or a task ends when the event is set or the
task has ended, or when the waiting task itself is cancelled. -/
def ownerReady (s : RunState ℓ α χ) : (o : Call α χ) → o.Ret → Bool
  | .await .flushedWait, .ok () => DeliveryEngine.ownerEvent PendingWriteOwner.flushed s
  | .await .flushedWait, .error e => !e.isException
  | .await (.notifyWait _), .ok timedOut =>
    timedOut || DeliveryEngine.ownerEvent PendingWriteOwner.notify s
  | .await (.notifyWait _), .error e => !e.isException
  | .await .joinOwner, .ok () => s.pendingWriteOwner.any fun o => o.task = .returned
  | .await .joinOwner, .error e =>
    !e.isException || s.pendingWriteOwner.any fun o => o.task = .raised e
  | _, _ => true

/-- What can happen to the world while a lane waits: the owner takes the pending writes and delivers
them. -/
structure Background (w w' : RunWorld ℓ α χ) : Prop where
  lane : w'.state.lane = w.state.lane
  owner : w'.state.pendingWriteOwner.isSome = w.state.pendingWriteOwner.isSome
  queue : w'.state.pendingWrites = w.state.pendingWrites ∨ w'.state.pendingWrites = []
  trace : ∃ t, w'.trace = w.trace ++ t ∧ ∀ m, .mark m ∈ t → m.IsDelivery

/-- Nothing need happen in the background. -/
theorem Background.refl (w : RunWorld ℓ α χ) : Background w w :=
  ⟨rfl, rfl, .inl rfl, [], by simp, nofun⟩

/-- What happens in the background composes. -/
theorem Background.trans {w₁ w₂ w₃ : RunWorld ℓ α χ} (h : Background w₁ w₂)
    (h' : Background w₂ w₃) : Background w₁ w₃ := by
  obtain ⟨t, ht, hmarks⟩ := h.trace
  obtain ⟨t', ht', hmarks'⟩ := h'.trace
  refine ⟨h'.lane.trans h.lane, h'.owner.trans h.owner, ?_, t ++ t', ?_, fun m hm => ?_⟩
  · rcases h'.queue with hsame | hnil
    · rw [hsame]
      exact h.queue
    · exact .inr hnil
  · rw [ht', ht, List.append_assoc]
  · rcases List.mem_append.mp hm with hm | hm
    · exact hmarks m hm
    · exact hmarks' m hm

/-- Nothing of the trace is taken back in the background. -/
theorem Background.extends {w w' : RunWorld ℓ α χ} (h : Background w w') : w.trace <+: w'.trace := by
  obtain ⟨t, ht, -⟩ := h.trace
  exact ⟨t, ht.symm⟩

/-- An event of the owner's. -/
theorem Background.event {w w' : RunWorld ℓ α χ} (h : Background w w')
    {e : Event (Call α χ) Call.Ret (Mark α χ)} (he : ∀ m, e = .mark m → m.IsDelivery) :
    Background w ⟨w'.state, w'.trace ++ [e]⟩ := by
  refine h.trans ⟨rfl, rfl, .inl rfl, [e], rfl, fun m hm => he m ?_⟩
  exact (List.mem_singleton.mp hm).symm

/-- A property of the trace that the owner's events keep is kept in the background. -/
theorem Background.keeps {T : RunTrace α χ → Prop}
    (hmark : ∀ t m, m.IsDelivery → T t → T (t ++ [.mark m]))
    (hcall : ∀ t o r, T t → T (t ++ [.called o r])) {w w' : RunWorld ℓ α χ} (h : Background w w')
    (hw : T w.trace) : T w'.trace := by
  obtain ⟨t, ht, hmarks⟩ := h.trace
  rw [ht]
  clear ht
  induction t using List.reverseRecOn with
  | nil => rwa [List.append_nil]
  | append_singleton t e ih =>
    have hrest := ih fun m hm => hmarks m (List.mem_append_left _ hm)
    rw [← List.append_assoc]
    cases e with
    | mark m => exact hmark _ m (hmarks m (by simp)) hrest
    | called o r => exact hcall _ o r hrest

/-- The contract of a lane beside the owner. -/
def laneContract (assume ensure : RunTrace α χ → Event (Call α χ) Call.Ret (Mark α χ) → Prop) :
    Contract (Call α χ) Call.Ret (Mark α χ) (RunState ℓ α χ) where
  ready := fun s o r => ownerReady s o r = true
  assume := assume
  ensure := ensure
  rely := Background
  guarantee := fun _ _ => True
  mayHang := True

/-- What is only observed of a program, whatever the others do, holds beside the owner too. -/
theorem safe_observed {assume ensure : RunTrace α χ → Event (Call α χ) Call.Ret (Mark α χ) → Prop}
    {Q Q' : β → RunWorld ℓ α χ → RunWorld ℓ α χ → Prop}
    {E E' : Exc → RunWorld ℓ α χ → RunWorld ℓ α χ → Prop} {p : Delivery ℓ α χ β}
    {w₀ w : RunWorld ℓ α χ} (h : p.Safe (laneContract assume ensure) Q E w₀ w)
    (h' : p.Safe (.observing assume) Q' E' w₀ w) :
    p.Safe (laneContract assume ensure) (fun a w₀ w => Q a w₀ w ∧ Q' a w₀ w)
      (fun e w₀ w => E e w₀ w ∧ E' e w₀ w) w₀ w := by
  refine Safe.and ?_ ?_ ?_ h h'
  · exact fun _ _ => Background.extends
  · exact fun _ _ _ _ => trivial
  · exact fun _ _ ha => ha

/-- The contract of the owner beside a lane. -/
def ownerContract (assume ensure : RunTrace α χ → Event (Call α χ) Call.Ret (Mark α χ) → Prop) :
    Contract (Call α χ) Call.Ret (Mark α χ) (RunState ℓ α χ) where
  ready := fun s o r => ownerReady s o r = true
  assume := assume
  ensure := ensure
  rely := fun _ _ => True
  guarantee := Background
  mayHang := True

/-! ## The footprint of the owner -/

/-- The footprint of the owner's programs. -/
def ownerFrame (ℓ : Type) : Footprint (Call α χ) (Mark α χ) (RunState ℓ α χ) where
  marks := Mark.IsDelivery
  calls := fun _ => True
  writes := fun s s' => s'.lane = s.lane ∧
    s'.pendingWriteOwner.isSome = s.pendingWriteOwner.isSome ∧
    (s'.pendingWrites = s.pendingWrites ∨ s'.pendingWrites = [])
  hangs := True

/-- A program of the delivery engine stays within the footprint of the owner. -/
theorem within_owner_of_delivery {p : Delivery ℓ α χ β}
    (hp : p.Within (deliveryFrame ℓ Mark.IsDelivery)) : p.Within (ownerFrame ℓ) := by
  refine Within.mono ?_ ?_ ?_ ?_ hp
  · exact fun _ h => h
  · exact fun _ h => h
  · intro s s' h
    have hlane : s'.lane = s.lane := congrArg QueueState.lane h
    have howner : s'.pendingWriteOwner = s.pendingWriteOwner :=
      congrArg QueueState.pendingWriteOwner h
    have hwrites : s'.pendingWrites = s.pendingWrites := congrArg QueueState.pendingWrites h
    exact ⟨hlane, by rw [howner], .inl hwrites⟩
  · exact False.elim

/-- The marks that the delivery engine leaves when a lane hands it a record. -/
structure AllowsEngine (M : Mark α χ → Prop) : Prop where
  settled : ∀ checkpoint how, M (.settled checkpoint how)
  uncaptured : ∀ stage raised, M (.uncaptured stage raised)
  dropping : ∀ due, M (.dropping due)

/-- The marks of the engine include those of a write. -/
theorem AllowsEngine.writes {M : Mark α χ → Prop} (hM : AllowsEngine M) : AllowsWrites M :=
  ⟨hM.settled, fun _ => hM.uncaptured _ _⟩

/-- A mark of the delivery engine is allowed. -/
theorem AllowsEngine.of_isDelivery {M : Mark α χ → Prop} (hM : AllowsEngine M) {m : Mark α χ}
    (hm : m.IsDelivery) : M m := by
  cases m with
  | settled checkpoint how => exact hM.settled checkpoint how
  | uncaptured stage raised => exact hM.uncaptured stage raised
  | _ => exact hm.elim

/-- The footprint of the programs by which a lane uses the delivery engine: they keep the objects of
the lane. -/
def laneFrame (ℓ : Type) (M : Mark α χ → Prop) :
    Footprint (Call α χ) (Mark α χ) (RunState ℓ α χ) where
  marks := M
  calls := fun _ => True
  writes := fun s s' => s'.lane = s.lane
  hangs := True

/-- The frame rule for a lane beside the owner: a property of the trace that these marks and all calls
keep is kept, and so are the objects of the lane. -/
theorem safe_laneFrame {M : Mark α χ → Prop} (hM : AllowsEngine M)
    {assume ensure : RunTrace α χ → Event (Call α χ) Call.Ret (Mark α χ) → Prop}
    {T : RunTrace α χ → Prop}
    (hmark : ∀ t m, M m → assume t (.mark m) → ensure t (.mark m))
    (hcall : ∀ t o r, assume t (.called o r) → ensure t (.called o r))
    (hTmark : ∀ t m, M m → T t → T (t ++ [.mark m]))
    (hTcall : ∀ t o r, T t → T (t ++ [.called o r]))
    {p : Delivery ℓ α χ β} (hp : p.Within (laneFrame ℓ M)) {w₀ w : RunWorld ℓ α χ}
    (hw : T w.trace) :
    p.Safe (laneContract assume ensure)
      (fun _ _ w' => w'.state.lane = w.state.lane ∧ T w'.trace)
      (fun _ _ w' => w'.state.lane = w.state.lane ∧ T w'.trace) w₀ w := by
  refine Safe.of_within (F := laneFrame ℓ M)
    (J := fun _ w' => w'.state.lane = w.state.lane ∧ T w'.trace)
    (fun _ w' s hw' hs => ⟨Eq.trans hs hw'.1, hw'.2⟩) (fun _ w' m hm hw' ha => ?_)
    (fun _ w' o _ hw' => ⟨trivial, fun w₁ hback r _ ha => ?_⟩) (fun _ => trivial) hp ⟨rfl, hw⟩
  · exact ⟨hmark _ m hm ha, hw'.1, hTmark _ m hm hw'.2⟩
  · have hT := hback.keeps (fun t m hm => hTmark t m (hM.of_isDelivery hm)) hTcall hw'.2
    exact ⟨hcall _ o r ha, hback.lane.trans hw'.1, hTcall _ o r hT⟩

namespace DeliveryEngine

variable {M : Mark α χ → Prop} (d : DeliveryEngine α χ)

section Flush

/-- The marks of a written batch are those of writes. -/
theorem within_noteWritten (hM : AllowsWrites M) (batch : List (PendingWrite α χ)) :
    (noteWritten batch : Delivery ℓ α χ Unit).Within (resolveFrame ℓ M) := by
  induction batch with
  | nil => exact within_ret ()
  | cons item items ih => exact within_bind (within_note (hM.settled _ _)) fun _ => ih

/-- Changing the owner's state touches neither the lane nor the queue. -/
theorem within_modifyOwner (f : PendingWriteOwner → PendingWriteOwner) :
    (modifyOwner f : Delivery ℓ α χ Unit).Within (ownerFrame ℓ) :=
  within_modify fun s => ⟨rfl, by cases s.pendingWriteOwner <;> rfl, .inl rfl⟩

variable [DecidableEq χ]

/-- The commit of a batch that was written as a whole stays within the frame of the engine. -/
theorem within_commitSuccessFrom (pending : PendingCommit χ) (batch : List (PendingWrite α χ)) :
    (d.commitSuccessFrom pending batch : Delivery ℓ α χ Unit).Within (deliveryFrame ℓ M) := by
  induction batch generalizing pending with
  | nil => exact d.within_finishCommit _
  | cons item items ih => exact within_bind (d.within_preparePending _ _ _) fun _ => ih _

/-- So does that commit with the marks of its records. -/
theorem within_commitPendingWriteSuccessBatch (hM : AllowsWrites M)
    (batch : List (PendingWrite α χ)) :
    (d.commitPendingWriteSuccessBatch batch : Delivery ℓ α χ Unit).Within (deliveryFrame ℓ M) :=
  within_bind (within_of_resolve (within_count _)) fun _ =>
    within_bind (within_of_resolve (within_noteWritten hM batch)) fun _ =>
      d.within_commitSuccessFrom _ _

/-- The write of a batch leaves the marks of writes. -/
theorem within_writeItems (hM : AllowsWrites M) (batch : List (PendingWrite α χ)) :
    (d.writeItems batch : Delivery ℓ α χ (Option (List WriteResult))).Within
      (deliveryFrame ℓ M) :=
  within_catchSinkException
    (within_bind (within_of_chain (d.within_writeBatch _)) fun _ => within_ret _) fun exc =>
      within_bind (d.within_flushBatchOutcomesFrom hM exc _ _) fun _ => within_ret _

variable [DecidableEq α]

omit [DecidableEq χ] in
/-- Resolving a batch leaves marks of writes and saves nothing. -/
theorem within_resolveRecords (hM : AllowsWrites M)
    (items : List (PendingWrite α χ × WriteResult)) :
    (d.resolveRecords items : Delivery ℓ α χ (List (CommitOutcome χ))).Within
      (resolveFrame ℓ M) := by
  induction items with
  | nil => exact within_ret _
  | cons item items ih =>
    exact within_bind (d.within_resolveRecord hM _ _ _ _ _) fun _ =>
      within_bind ih fun _ => within_ret _

/-- A flush leaves the marks of writes. -/
theorem within_flushBatch (hM : AllowsWrites M) (batch : List (PendingWrite α χ)) :
    (d.flushBatch batch : Delivery ℓ α χ Unit).Within (deliveryFrame ℓ M) := by
  refine within_bind (d.within_writeItems hM batch) fun written => ?_
  cases written with
  | none => exact within_ret ()
  | some writeResults =>
    refine within_bind (within_validateWriteResultCount _ _ _) fun _ => within_ite ?_ ?_
    · exact d.within_commitPendingWriteSuccessBatch hM batch
    · exact within_bind (within_of_resolve (d.within_resolveRecords hM _)) fun _ =>
        d.within_commitOutcomesFrom _ _

/-- Flushing what is queued is all that the owner does with the queue. -/
theorem within_flushPendingWritesOnce :
    (d.flushPendingWritesOnce : Delivery ℓ α χ Unit).Within (ownerFrame ℓ) := by
  refine within_bind within_read fun s => within_ite (within_ret ()) ?_
  refine within_bind (within_modify fun _ => ⟨rfl, rfl, .inr rfl⟩) fun _ => ?_
  exact within_owner_of_delivery (d.within_flushBatch allowsWrites_isDelivery _)

/-- A round of the owner stays within its footprint. -/
theorem within_pendingWriteOwnerRound (u : Unit) :
    (d.pendingWriteOwnerRound u : Delivery ℓ α χ (Unit ⊕ Unit)).Within (ownerFrame ℓ) := by
  have hflush : (do d.ownerFlush; pure (.inl ()) : Delivery ℓ α χ (Unit ⊕ Unit)).Within
      (ownerFrame ℓ) :=
    within_bind (within_bind d.within_flushPendingWritesOnce fun _ => within_modifyOwner _)
      fun _ => within_ret _
  have hwait : ∀ timeout : Bool, (attempt (invoke (.notifyWait timeout)) :
      Delivery ℓ α χ (Except Exc Bool)).Within (ownerFrame ℓ) := fun timeout =>
    within_attempt (within_bind (within_perform trivial) fun r => within_ofExcept r)
  refine within_bind within_read fun s => within_ite (within_ret _) (within_ite hflush ?_)
  refine within_bind (hwait _) fun waited => within_bind (within_modifyOwner _) fun _ => ?_
  refine within_bind (within_ofExcept _) fun timedOut => within_bind within_read fun s' => ?_
  exact within_ite hflush (within_ite hflush (within_ret _))

/-- So does the whole loop of the owner. -/
theorem within_runPendingWriteOwner (fuel : ℕ) :
    (d.runPendingWriteOwner fuel : Delivery ℓ α χ Unit).Within (ownerFrame ℓ) := by
  refine within_bind (within_attempt
    (within_iterate trivial d.within_pendingWriteOwnerRound fuel ())) fun ended => ?_
  have hraised : ∀ exc : Exc, (modify fun s => { s with
      pendingWriteError := some exc
      pendingWriteOwner := s.pendingWriteOwner.map fun o =>
        { o with flushed := true, task := .raised exc } } : Delivery ℓ α χ Unit).Within
      (ownerFrame ℓ) := fun exc =>
    within_modify fun s => ⟨rfl, by cases s.pendingWriteOwner <;> rfl, .inl rfl⟩
  match ended with
  | .ok () => exact within_modifyOwner _
  | .error .cancelled => exact within_modifyOwner _
  | .error (.external e) => exact hraised _
  | .error (.fenceLost m) => exact hraised _
  | .error (.recordDelivery e) => exact hraised _
  | .error (.checkpointSave e) => exact hraised _
  | .error (.runtimeError m) => exact hraised _
  | .error (.valueError m) => exact hraised _
  | .error .keyboardInterrupt => exact hraised _

end Flush

/-! ## The footprint of a lane's calls of the engine -/

/-- A program of the delivery engine stays within the footprint of a lane. -/
theorem within_lane_of_delivery {p : Delivery ℓ α χ β} (hp : p.Within (deliveryFrame ℓ M)) :
    p.Within (laneFrame ℓ M) := by
  refine Within.mono ?_ ?_ ?_ ?_ hp
  · exact fun _ h => h
  · exact fun _ h => h
  · intro s s' h
    have hlane : s'.lane = s.lane := congrArg QueueState.lane h
    exact hlane
  · exact False.elim

/-- A program of the owner's stays within the footprint of a lane. -/
theorem within_lane_of_owner (hM : AllowsEngine M) {p : Delivery ℓ α χ β}
    (hp : p.Within (ownerFrame ℓ)) : p.Within (laneFrame ℓ M) := by
  refine Within.mono (fun m hm => ?_) ?_ ?_ ?_ hp
  · exact hM.of_isDelivery hm
  · exact fun _ h => h
  · exact fun _ _ h => h.1
  · exact fun h => h

/-- Closing the owner leaves the objects of the lane alone. -/
theorem within_closePendingWriteOwner :
    (closePendingWriteOwner : Delivery ℓ α χ Unit).Within (laneFrame ℓ M) := by
  refine within_bind within_read fun s => within_ite (within_ret ()) ?_
  refine within_bind (within_modify fun _ => rfl) fun _ => ?_
  refine within_bind (within_attempt (within_bind (within_perform trivial)
    fun r => within_ofExcept r)) fun joined => ?_
  refine within_bind within_read fun s' => within_bind (within_modify fun _ => rfl) fun _ => ?_
  cases s'.pendingWriteError with
  | some exc => exact within_raise exc
  | none => exact within_ofExcept joined

/-- So does waiting for room in the queue. -/
theorem within_waitForPendingWriteCapacity (fuel writerBatchSize : ℕ) :
    (waitForPendingWriteCapacity fuel writerBatchSize : Delivery ℓ α χ Unit).Within
      (laneFrame ℓ M) := by
  refine within_iterate trivial (fun _ => ?_) fuel ()
  refine within_bind within_read fun s => within_ite ?_ (within_ret _)
  cases s.pendingWriteError with
  | some exc => exact within_raise exc
  | none =>
    exact within_bind (within_bind (within_perform trivial) fun r => within_ofExcept r) fun _ =>
      within_ret _

section Lane

variable [DecidableEq χ]

/-- The commit of a dropped record stays within the frame of the engine. -/
theorem within_finishDrop (hM : AllowsEngine M) (checkpoint : Option χ) (onSuccess : List Hook) :
    (d.finishDrop checkpoint onSuccess : Delivery ℓ α χ Unit).Within (deliveryFrame ℓ M) :=
  within_bind within_read fun _ => within_bind (within_note (hM.dropping _)) fun _ =>
    within_bind (d.within_saveCheckpoint _) fun _ => within_of_resolve (within_runHooks _)

variable [DecidableEq α]

/-- A record that goes no further leaves marks of the engine. -/
theorem within_dropRecord (hM : AllowsEngine M) (checkpoint : Option χ)
    (failure : Option (MiddlewareFailure α)) (onSuccess : List Hook) (hookRecord : Option α) :
    (d.dropRecord checkpoint failure onSuccess hookRecord : Delivery ℓ α χ Unit).Within
      (deliveryFrame ℓ M) := by
  have hhooks : ∀ record, (successHookFor record none onSuccess :
      Delivery ℓ α χ (List Hook)).Within (deliveryFrame ℓ M) := fun record =>
    within_of_resolve (within_successHookFor _ _ _)
  have hdropped : ∀ hooks : List Hook, (do
      countDropped 1
      note (.settled checkpoint .dropped)
      d.finishDrop checkpoint hooks : Delivery ℓ α χ Unit).Within (deliveryFrame ℓ M) := fun hooks =>
    within_bind (within_of_resolve (within_count _)) fun _ =>
      within_bind (within_note (hM.settled _ _)) fun _ => d.within_finishDrop hM _ _
  have hfailed : ∀ (f : MiddlewareFailure α) (hooks : List Hook), (do
      let routed ← d.writeToDlq f.stage f.exception f.record none checkpoint (some f.middleware)
      countErrored 1
      if d.dlqSink && !routed then do
        discardSuccessHooks [f.record]
        if d.checkpointStore && checkpoint.isSome then raiseRecordDelivery f.exception
        else pure ()
      else do
        note (.settled checkpoint (failureHandling routed))
        d.finishDrop checkpoint hooks : Delivery ℓ α χ Unit).Within (deliveryFrame ℓ M) := by
    intro f hooks
    refine within_bind (within_of_resolve (d.within_writeToDlq (hM.uncaptured _) _ _ _ _ _))
      fun routed => within_bind (within_of_resolve (within_count _)) fun _ => within_ite ?_ ?_
    · exact within_bind (within_of_resolve (within_discardSuccessHooks _)) fun _ =>
        within_ite (within_raise _) (within_ret ())
    · exact within_bind (within_note (hM.settled _ _)) fun _ => d.within_finishDrop hM _ _
  unfold dropRecord
  match hookRecord, failure with
  | some record, none => exact within_bind (hhooks record) hdropped
  | some record, some f => exact within_bind (hhooks record) (hfailed f)
  | none, some f => exact within_bind (hhooks f.record) (hfailed f)
  | none, none => exact within_bind (within_ret _) hdropped

/-- A record whose write raised leaves marks of the engine. -/
theorem within_writeFailed (hM : AllowsEngine M) (exc : Exc) (result rawRecord : α)
    (checkpoint : Option χ) (onSuccess : List Hook) :
    (d.writeFailed exc result rawRecord checkpoint onSuccess : Delivery ℓ α χ Unit).Within
      (deliveryFrame ℓ M) := by
  refine within_bind (within_of_resolve (d.within_writeToDlq (hM.uncaptured _) _ _ _ _ _))
    fun routed => within_bind (within_of_resolve (within_count _)) fun _ => within_ite ?_ ?_
  · refine within_bind (within_note (hM.settled _ _)) fun _ =>
      within_bind (d.within_saveCheckpoint _) fun _ => within_ite ?_ ?_
    · exact within_bind (within_of_resolve (within_successHookFor _ _ _)) fun _ =>
        within_of_resolve (within_runHooks _)
    · exact within_of_resolve (within_discardSuccessHooks _)
  · exact within_bind (within_of_resolve (within_discardSuccessHooks _)) fun _ => within_raise _

/-- Writing a processed record at once leaves marks of the engine. -/
theorem within_writeProcessedRecord (hM : AllowsEngine M) (result : Option α) (rawRecord : α)
    (checkpoint : Option χ) (failure : Option (MiddlewareFailure α)) (onSuccess : List Hook) :
    (d.writeProcessedRecord result rawRecord checkpoint failure onSuccess :
      Delivery ℓ α χ Unit).Within (deliveryFrame ℓ M) := by
  unfold writeProcessedRecord
  cases result with
  | none => exact d.within_dropRecord hM _ _ _ _
  | some result =>
    refine within_bind (within_catchSinkException
      (within_bind (within_of_chain (d.within_writeOne _)) fun _ => within_ret _)
      fun exc => within_bind (d.within_writeFailed hM _ _ _ _ _) fun _ => within_ret _) fun written => ?_
    cases written with
    | none => exact within_ret ()
    | some writeResult =>
      exact within_bind (within_of_resolve (d.within_resolveRecord hM.writes _ _ _ _ _)) fun _ =>
        d.within_commitOutcome _

/-- `flush_pending_writes` leaves the objects of the lane alone. -/
theorem within_flushPendingWrites (hM : AllowsEngine M) :
    (d.flushPendingWrites : Delivery ℓ α χ Unit).Within (laneFrame ℓ M) :=
  within_bind within_closePendingWriteOwner fun _ =>
    within_lane_of_owner hM d.within_flushPendingWritesOnce

/-- So does queueing a record, with the flush that may follow. -/
theorem within_queueSuccessRecord (hM : AllowsEngine M) (fuel : ℕ) (result rawRecord : α)
    (checkpoint : Option χ) (writerBatchSize : ℕ) (onSuccess : List Hook) :
    (d.queueSuccessRecord fuel result rawRecord checkpoint writerBatchSize onSuccess :
      Delivery ℓ α χ Unit).Within (laneFrame ℓ M) := by
  have hmodify : ∀ f : PendingWriteOwner → PendingWriteOwner,
      (modifyOwner f : Delivery ℓ α χ Unit).Within (laneFrame ℓ M) := fun f =>
    within_modify fun _ => rfl
  have happend : ∀ item : PendingWrite α χ,
      (appendPendingWrite item : Delivery ℓ α χ ℕ).Within (laneFrame ℓ M) := fun item =>
    within_bind (within_modify fun _ => rfl) fun _ => within_bind within_read fun _ => within_ret _
  have huses : (d.pendingWriteUsesOwner writerBatchSize : Delivery ℓ α χ Bool).Within
      (laneFrame ℓ M) := by
    refine within_bind within_read fun s => ?_
    cases s.pendingWriteUsesOwner with
    | some uses => exact within_ret uses
    | none => exact within_bind (within_modify fun _ => rfl) fun _ => within_ret _
  have hensure : (d.ensurePendingWriteOwner writerBatchSize : Delivery ℓ α χ Unit).Within
      (laneFrame ℓ M) :=
    within_bind within_read fun s => within_ite (within_ret ())
      (within_ite (within_ret ()) (within_modify fun _ => rfl))
  refine within_bind (within_lane_of_delivery (within_of_resolve (within_successHookFor _ _ _)))
    fun hooks => within_bind huses fun usesOwner => within_ite ?_ ?_
  · exact within_bind hensure fun _ => within_bind (hmodify _) fun _ =>
      within_bind (happend _) fun _ => within_bind (hmodify _) fun _ =>
        within_ite (within_waitForPendingWriteCapacity _ _) (within_ret ())
  · exact within_bind (happend _) fun _ => within_ite (d.within_flushPendingWrites hM) (within_ret ())

/-- So does dispatching the result of a record. -/
theorem within_dispatchProcessedResult (hM : AllowsEngine M) (fuel : ℕ) (result : Option α)
    (rawRecord : α) (checkpoint : Option χ) (writerBatchSize : ℕ)
    (failure : Option (MiddlewareFailure α)) (onSuccess : List Hook) :
    (d.dispatchProcessedResult fuel result rawRecord checkpoint writerBatchSize failure onSuccess :
      Delivery ℓ α χ Unit).Within (laneFrame ℓ M) := by
  unfold dispatchProcessedResult
  cases result with
  | none => exact within_lane_of_delivery (d.within_dropRecord hM _ _ _ _)
  | some result =>
    exact within_ite (within_lane_of_delivery (d.within_writeProcessedRecord hM _ _ _ _ _))
      (d.within_queueSuccessRecord hM _ _ _ _ _ _)

end Lane

/-! ## The rule for whole runs -/

section Rule

variable [DecidableEq α] [DecidableEq χ]
  {assume ensure : RunTrace α χ → Event (Call α χ) Call.Ret (Mark α χ) → Prop}

/-- A lane with the pending-write owner. -/
def withOwner (fuel : ℕ) (main : Delivery ℓ α χ β) :
    System (Call α χ) Call.Ret (Mark α χ) (RunState ℓ α χ) Exc β where
  main := main
  helper := d.runPendingWriteOwner fuel
  spawned := fun s => s.pendingWriteOwner.isSome
  ready := ownerReady

/-- The owner keeps its contract. -/
theorem safe_runPendingWriteOwner (fuel : ℕ)
    (hmark : ∀ t m, m.IsDelivery → assume t (.mark m) → ensure t (.mark m))
    (hcall : ∀ t o r, assume t (.called o r) → ensure t (.called o r)) (w : RunWorld ℓ α χ) :
    (d.runPendingWriteOwner fuel).Safe (ownerContract assume ensure) (fun _ => Background)
      (fun _ => Background) w w := by
  refine Safe.of_within (F := ownerFrame ℓ) (J := Background) (fun w₀ w' s hw' hs => ?_)
    (fun w₀ w' m hm hw' ha => ?_) (fun w₀ w' o _ hw' => ?_) (fun _ => trivial)
    (d.within_runPendingWriteOwner fuel) (Background.refl w)
  · exact hw'.trans ⟨hs.1, hs.2.1, hs.2.2, [], by simp, nofun⟩
  · refine ⟨hmark _ m hm ha, hw'.event fun m' hm' => ?_⟩
    cases hm'
    exact hm
  · refine ⟨hw', fun w₁ _ r _ ha => ⟨hcall _ o r ha, ?_⟩⟩
    exact (Background.refl w₁).event nofun

/-- The contracts of the two tasks match. -/
def ownerAgreement (fuel : ℕ) (main : Delivery ℓ α χ β)
    (hmark : ∀ t m, m.IsDelivery → assume t (.mark m) → ensure t (.mark m))
    (hcall : ∀ t o r, assume t (.called o r) → ensure t (.called o r))
    (Q : β → RunWorld ℓ α χ → RunWorld ℓ α χ → Prop)
    (E : Exc → RunWorld ℓ α χ → RunWorld ℓ α χ → Prop) :
    (d.withOwner fuel main).Agreement where
  main := laneContract assume ensure
  helper := ownerContract assume ensure
  before := fun _ => True
  mainReturns := Q
  mainRaises := E
  helperReturns := fun _ => Background
  helperRaises := fun _ => Background
  main_ready := fun _ _ _ h => h
  helper_ready := fun _ _ _ h => h
  assume_eq := rfl
  ensure_eq := rfl
  main_rely_refl := Background.refl
  main_rely_trans := fun _ _ _ h h' => h.trans h'
  helper_rely_refl := fun _ => trivial
  helper_rely_trans := fun _ _ _ _ _ => trivial
  main_helper := fun _ _ _ => trivial
  helper_main := fun _ _ h => h
  before_stable := fun _ _ _ _ => trivial
  mainReturns_guarantee := fun _ _ _ _ => trivial
  mainRaises_guarantee := fun _ _ _ _ => trivial
  helperReturns_guarantee := fun _ _ _ h => h
  helperRaises_guarantee := fun _ _ _ h => h
  helper_safe := fun w _ _ => d.safe_runPendingWriteOwner fuel hmark hcall w

/-- Every run of a lane that is safe beside the owner meets the obligation of the lane, and a lane
that has ended has ended in its postcondition, up to what happens in the background. -/
theorem withOwner_sound {fuel : ℕ} {main : Delivery ℓ α χ β}
    (hmark : ∀ t m, m.IsDelivery → assume t (.mark m) → ensure t (.mark m))
    (hcall : ∀ t o r, assume t (.called o r) → ensure t (.called o r))
    {Q : β → RunWorld ℓ α χ → RunWorld ℓ α χ → Prop}
    {E : Exc → RunWorld ℓ α χ → RunWorld ℓ α χ → Prop} {w : RunWorld ℓ α χ}
    (hmain : main.Safe (laneContract assume ensure) Q E w w) (h : Environment α χ)
    (turns : List Turn) {c : System.Config (Call α χ) Call.Ret (Mark α χ) (RunState ℓ α χ) Exc β}
    (hc : (d.withOwner fuel main).exec h ((d.withOwner fuel main).start w) turns = c) :
    ∃ t, c.world.trace = w.trace ++ t ∧ (Along assume w.trace t → Along ensure w.trace t ∧
      (∀ a, c.main = .ended (.returned a) → c.hung = false →
        ∃ w₀ w₁, Q a w₀ w₁ ∧ Background w₁ c.world) ∧
      (∀ e, c.main = .ended (.raised e) → c.hung = false →
        ∃ w₀ w₁, E e w₀ w₁ ∧ Background w₁ c.world)) := by
  have hsound := System.sound_run (d.ownerAgreement fuel main hmark hcall Q E) h trivial hmain turns
  rw [hc] at hsound
  obtain ⟨t, ht, hpost⟩ := hsound
  refine ⟨t, ht, fun hal => ⟨(hpost hal).1, fun a ha hh => ?_, fun e he hh => ?_⟩⟩
  · have hsafe := ((hpost hal).2 hh).main
    rw [ha] at hsafe
    exact hsafe
  · have hsafe := ((hpost hal).2 hh).main
    rw [he] at hsafe
    exact hsafe

end Rule

end DeliveryEngine

end AgoraEtl
