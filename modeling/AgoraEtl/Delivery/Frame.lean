import AgoraEtl.Effect.Footprint
import AgoraEtl.Delivery.BatchWrite

/-!
# What the delivery engine leaves alone

The programs that write records, route failures, save checkpoints and run hooks stay within a
footprint: they leave only marks of their own, they touch neither the objects of the lane nor the
queue of pending writes, and they do not hang.  The lanes' invariants are kept across them by the
frame rule.
-/

namespace AgoraEtl

open Effect Program

variable {ℓ α χ : Type}

/-- The part of the run state that the delivery of records leaves alone: the objects of the lane, and
the queue of pending writes with its owner. -/
structure QueueState (ℓ α χ : Type) : Type where
  lane : ℓ
  pendingWrites : List (PendingWrite α χ)
  pendingWriteBatchSize : ℕ
  pendingWriteOwner : Option PendingWriteOwner
  pendingWriteError : Option Exc
  pendingWriteUsesOwner : Option Bool

/-- The part of a run state that the delivery of records leaves alone. -/
def RunState.queue (s : RunState ℓ α χ) : QueueState ℓ α χ where
  lane := s.lane
  pendingWrites := s.pendingWrites
  pendingWriteBatchSize := s.pendingWriteBatchSize
  pendingWriteOwner := s.pendingWriteOwner
  pendingWriteError := s.pendingWriteError
  pendingWriteUsesOwner := s.pendingWriteUsesOwner

/-- The footprint of programs that leave the given marks, keep the lane and the queue of pending
writes, and do not hang. -/
def deliveryFrame (ℓ : Type) (M : Mark α χ → Prop) :
    Footprint (Call α χ) (Mark α χ) (RunState ℓ α χ) where
  marks := M
  calls := fun _ => True
  writes := fun s s' => s'.queue = s.queue
  hangs := False

/-- The call saves a checkpoint. -/
def Call.isSave : Call α χ → Bool
  | .await (.saveCheckpoint _ _) => true
  | _ => false

/-- The values of the checkpoints saved in a run, in their order. -/
def saves (t : RunTrace α χ) : List χ :=
  t.filterMap fun
    | .called (.await (.saveCheckpoint _ checkpoint)) _ => some checkpoint.value
    | _ => none

/-- The saves of two parts of a run are those of the first and then those of the second. -/
@[simp] theorem saves_append (t t' : RunTrace α χ) : saves (t ++ t') = saves t ++ saves t' :=
  List.filterMap_append

/-- A mark saves nothing. -/
@[simp] theorem saves_mark (m : Mark α χ) : saves [.mark m] = [] := rfl

/-- Other calls save nothing. -/
theorem saves_called {o : Call α χ} (ho : o.isSave = false) (r : o.Ret) :
    saves [.called o r] = [] := by
  cases o with
  | await a => cases a <;> first | rfl | cases ho
  | _ => rfl

/-- The failures of a stage that were not captured in the dead-letter queue, and for each of them
whether the attempt raised. -/
def uncapturedAt (stage : String) (t : RunTrace α χ) : List Bool :=
  marked (fun | .uncaptured s raised => if s = stage then some raised else none | _ => none) t

/-- The uncaptured failures of two parts of a run follow one another. -/
@[simp] theorem uncapturedAt_append (stage : String) (t t' : RunTrace α χ) :
    uncapturedAt stage (t ++ t') = uncapturedAt stage t ++ uncapturedAt stage t' :=
  marked_append _ t t'

/-- A call is no uncaptured failure: that is a mark. -/
@[simp] theorem uncapturedAt_called (stage : String) (o : Call α χ) (r : o.Ret) :
    uncapturedAt stage [.called o r] = ([] : List Bool) := rfl

/-- The mark of a failure that was not captured says whether it was raised. -/
@[simp] theorem uncapturedAt_uncaptured (stage : String) (raised : Bool) :
    uncapturedAt stage ([.mark (.uncaptured stage raised)] : RunTrace α χ) = [raised] := by
  simp [uncapturedAt]

/-- The footprint of programs that resolve what becomes of records: they leave the given marks, but
save no checkpoint, and keep the checkpoint state besides the lane and the queue. -/
def resolveFrame (ℓ : Type) (M : Mark α χ → Prop) :
    Footprint (Call α χ) (Mark α χ) (RunState ℓ α χ) where
  marks := M
  calls := fun o => o.isSave = false
  writes := fun s s' => s'.queue = s.queue ∧ s'.checkpointState = s.checkpointState
  hangs := False

/-- The footprint of programs that deliver nothing: they leave no marks at all. -/
abbrev chainFrame (ℓ : Type) : Footprint (Call α χ) (Mark α χ) (RunState ℓ α χ) :=
  resolveFrame ℓ fun _ => False

/-- The marks of a write: outcomes of records, and failures of the sink that were not captured. -/
structure AllowsWrites (M : Mark α χ → Prop) : Prop where
  settled : ∀ checkpoint how, M (.settled checkpoint how)
  sinkWrite : ∀ raised, M (.uncaptured "sink_write" raised)

/-- The marks of a failure at a stage that was not captured. -/
def AllowsUncaptured (M : Mark α χ → Prop) (stage : String) : Prop :=
  ∀ raised, M (.uncaptured stage raised)

/-- The marks of a program that writes records or routes them to the dead-letter queue. -/
def Mark.IsDelivery : Mark α χ → Prop
  | .settled _ _ => True
  | .uncaptured _ _ => True
  | _ => False

/-- The marks of the delivery engine include those of a write. -/
theorem allowsWrites_isDelivery : AllowsWrites (Mark.IsDelivery (α := α) (χ := χ)) :=
  ⟨fun _ _ => trivial, fun _ => trivial⟩

/-- They include the failures of every stage. -/
theorem allowsUncaptured_isDelivery (stage : String) :
    AllowsUncaptured (Mark.IsDelivery (α := α) (χ := χ)) stage := fun _ => trivial

section Basics

variable {M : Mark α χ → Prop} {β : Type}
  {F : Footprint (Call α χ) (Mark α χ) (RunState ℓ α χ)}

/-- An awaited operation that runs alone returns or raises what it is answered. -/
@[simp] theorem safe_invoke {assume ensure : RunTrace α χ → Event (Call α χ) Call.Ret (Mark α χ) → Prop}
    {mayHang : Prop} {a : Await α χ}
    {Q : a.Value → RunWorld ℓ α χ → RunWorld ℓ α χ → Prop}
    {E : Exc → RunWorld ℓ α χ → RunWorld ℓ α χ → Prop} {w₀ w : RunWorld ℓ α χ} :
    (invoke a).Safe (.alone assume ensure mayHang) Q E w₀ w ↔
      ∀ r : Except Exc a.Value, assume w.trace (.called (.await a) r) →
        ensure w.trace (.called (.await a) r) ∧
          match r with
          | .ok v => Q v w (w.called (.await a) r)
          | .error exc => E exc w (w.called (.await a) r) := by
  unfold invoke
  rw [safe_bind, safe_perform_alone]
  refine forall_congr' fun r => imp_congr_right fun _ => and_congr_right fun _ => ?_
  cases r <;> exact Iff.rfl

/-- `try … except Exception`: the handler has to be safe where the program raises an exception. -/
theorem safe_catchException {C : Contract (Call α χ) Call.Ret (Mark α χ) (RunState ℓ α χ)}
    {p : Delivery ℓ α χ β} {handler : Exc → Delivery ℓ α χ β}
    {Q : β → RunWorld ℓ α χ → RunWorld ℓ α χ → Prop}
    {E : Exc → RunWorld ℓ α χ → RunWorld ℓ α χ → Prop} {w₀ w : RunWorld ℓ α χ} :
    (catchException p handler).Safe C Q E w₀ w ↔
      p.Safe C Q (fun exc w₀ w => if exc.isException then (handler exc).Safe C Q E w₀ w
        else E exc w₀ w) w₀ w := by
  unfold catchException
  rw [safe_bind, safe_attempt]
  refine Eq.to_iff (congrArg (fun E' => p.Safe C Q E' w₀ w) ?_)
  funext exc w₀ w
  dsimp only
  split <;> rfl

/-- A program that leaves fewer marks stays within the larger frame. -/
theorem within_of_marks {M' : Mark α χ → Prop} (hM : ∀ m, M m → M' m) {p : Delivery ℓ α χ β}
    (hp : p.Within (deliveryFrame ℓ M)) : p.Within (deliveryFrame ℓ M') := by
  refine Within.mono ?_ ?_ ?_ ?_ hp
  · exact hM
  · exact fun _ h => h
  · exact fun _ _ h => h
  · exact fun h => h

/-- An awaited operation leaves the part of the state alone that the engine has no business with. -/
theorem within_invoke (a : Await α χ) :
    (invoke a : Delivery ℓ α χ a.Value).Within (deliveryFrame ℓ M) :=
  within_bind (within_perform trivial) fun r => within_ofExcept r

/-- An operation that saves nothing stays within the frame of resolving. -/
theorem within_resolveInvoke {a : Await α χ} (ha : (Call.await a).isSave = false) :
    (invoke a : Delivery ℓ α χ a.Value).Within (resolveFrame ℓ M) :=
  within_bind (within_perform ha) fun r => within_ofExcept r

/-- It delivers nothing either. -/
theorem within_chainInvoke {a : Await α χ} (ha : (Call.await a).isSave = false) :
    (invoke a : Delivery ℓ α χ a.Value).Within (chainFrame ℓ) := within_resolveInvoke ha

/-- A program that delivers nothing stays within the frame of resolving. -/
theorem within_resolve_of_chain {p : Delivery ℓ α χ β} (hp : p.Within (chainFrame ℓ)) :
    p.Within (resolveFrame ℓ M) := by
  refine Within.mono ?_ ?_ ?_ ?_ hp
  · exact fun _ h => h.elim
  · exact fun _ h => h
  · exact fun _ _ h => h
  · exact fun h => h

/-- A program that resolves records stays within the frame of the delivery engine. -/
theorem within_of_resolve {p : Delivery ℓ α χ β} (hp : p.Within (resolveFrame ℓ M)) :
    p.Within (deliveryFrame ℓ M) := by
  refine Within.mono ?_ ?_ ?_ ?_ hp
  · exact fun _ h => h
  · exact fun _ _ => trivial
  · exact fun _ _ h => h.1
  · exact fun h => h

/-- A program that delivers nothing stays within the frame of the delivery engine. -/
theorem within_of_chain {p : Delivery ℓ α χ β} (hp : p.Within (chainFrame ℓ)) :
    p.Within (deliveryFrame ℓ M) := within_of_resolve (within_resolve_of_chain hp)

/-- `try … except Exception` stays within a footprint if its two parts do. -/
theorem within_catchException {p : Delivery ℓ α χ β} {handler : Exc → Delivery ℓ α χ β}
    (hp : p.Within F) (hhandler : ∀ exc, (handler exc).Within F) :
    (catchException p handler).Within F := by
  refine within_bind (within_attempt hp) fun r => ?_
  cases r with
  | ok v => exact within_ret v
  | error exc => exact within_ite (hhandler exc) (within_raise exc)

/-- The handler of sink errors stays within a footprint if its two parts do. -/
theorem within_catchSinkException {p : Delivery ℓ α χ β} {handler : Exc → Delivery ℓ α χ β}
    (hp : p.Within F) (hhandler : ∀ exc, (handler exc).Within F) :
    (catchSinkException p handler).Within F :=
  within_catchException hp fun exc => within_ite (within_raise exc) (hhandler exc)

/-- Counting touches neither the queue nor the checkpoint state. -/
theorem within_count (f : Metrics → Metrics) :
    (count f : Delivery ℓ α χ Unit).Within (resolveFrame ℓ M) := within_modify fun _ => ⟨rfl, rfl⟩

/-- Counting changes neither the queue nor the trace. -/
theorem safe_count {C : Contract (Call α χ) Call.Ret (Mark α χ) (RunState ℓ α χ)}
    {f : Metrics → Metrics} {Q : Unit → RunWorld ℓ α χ → RunWorld ℓ α χ → Prop}
    {E : Exc → RunWorld ℓ α χ → RunWorld ℓ α χ → Prop} {w₀ w : RunWorld ℓ α χ}
    (h : ∀ w', w'.state.queue = w.state.queue → w'.trace = w.trace → Q () w₀ w') :
    (count f).Safe C Q E w₀ w :=
  h _ rfl rfl

/-- The check of the number of results touches nothing. -/
theorem within_validateWriteResultCount (kind : String) (expected actual : ℕ) :
    (validateWriteResultCount kind expected actual : Delivery ℓ α χ Unit).Within F :=
  within_ite (within_raise _) (within_ret ())

/-- Success hooks touch neither the queue nor the checkpoint state. -/
theorem within_runHooks (hooks : List Hook) :
    (runHooks hooks : Delivery ℓ α χ Unit).Within (resolveFrame ℓ M) := by
  induction hooks with
  | nil => exact within_ret ()
  | cons hook hooks ih => exact within_bind (within_resolveInvoke rfl) fun _ => ih

section Hooks

variable [DecidableEq α]

/-- Taking the registered hooks of a record touches only the registrations. -/
theorem within_popRegistrations (record : α) :
    (popRegistrations record : Delivery ℓ α χ (List Registration)).Within (resolveFrame ℓ M) :=
  within_bind within_read fun _ => within_bind (within_modify fun _ => ⟨rfl, rfl⟩) fun _ => within_ret _

/-- So does taking those of several records. -/
theorem within_popSuccessHooks (records : List α) :
    (popSuccessHooks records : Delivery ℓ α χ (List Hook)).Within (resolveFrame ℓ M) := by
  induction records with
  | nil => exact within_ret _
  | cons record records ih =>
    exact within_bind (within_popRegistrations record) fun _ =>
      within_bind ih fun _ => within_ret _

omit [DecidableEq α] in
/-- Discard callbacks touch neither the queue nor the checkpoint state. -/
theorem within_runDiscards (entries : List Registration) :
    (runDiscards entries : Delivery ℓ α χ Unit).Within (resolveFrame ℓ M) := by
  induction entries with
  | nil => exact within_ret ()
  | cons entry entries ih =>
    unfold runDiscards
    cases entry.onDiscard with
    | none => exact ih
    | some discard =>
      exact within_bind (within_catchException (within_resolveInvoke rfl) fun _ => within_ret ()) fun _ => ih

/-- Discarding the hooks of records stays within the frame of resolving. -/
theorem within_discardSuccessHooks (records : List α) :
    (discardSuccessHooks records : Delivery ℓ α χ Unit).Within (resolveFrame ℓ M) := by
  induction records with
  | nil => exact within_ret ()
  | cons record records ih =>
    exact within_bind (within_popRegistrations record) fun entries =>
      within_bind (within_runDiscards entries) fun _ => ih

/-- Collecting the hooks of a record stays within the frame of resolving. -/
theorem within_successHookFor (rawRecord : α) (processedRecord : Option α)
    (onSuccess : List Hook) :
    (successHookFor rawRecord processedRecord onSuccess :
      Delivery ℓ α χ (List Hook)).Within (resolveFrame ℓ M) := by
  unfold successHookFor
  cases processedRecord with
  | none => exact within_bind (within_popSuccessHooks _) fun _ => within_ret _
  | some processed => exact within_bind (within_popSuccessHooks _) fun _ => within_ret _

section

variable {C : Contract (Call α χ) Call.Ret (Mark α χ) (RunState ℓ α χ)}
  {Q : List Hook → RunWorld ℓ α χ → RunWorld ℓ α χ → Prop}
  {E : Exc → RunWorld ℓ α χ → RunWorld ℓ α χ → Prop} {w₀ w : RunWorld ℓ α χ}

/-- Taking hooks changes neither the queue nor the trace. -/
theorem safe_popSuccessHooks {records : List α}
    (h : ∀ hooks w', w'.state.queue = w.state.queue → w'.trace = w.trace → Q hooks w₀ w') :
    (popSuccessHooks records).Safe C Q E w₀ w := by
  induction records generalizing w Q with
  | nil => exact h [] w rfl rfl
  | cons record records ih =>
    unfold popSuccessHooks popRegistrations
    rw [safe_bind, safe_bind, safe_read, safe_bind]
    refine safe_modify_of fun w₁ hstate htrace => ?_
    have hqueue : w₁.state.queue = w.state.queue := (congrArg RunState.queue hstate).trans rfl
    refine (safe_ret _).mpr ?_
    rw [safe_bind]
    exact ih fun hooks w₂ hqueue₂ htrace₂ => h _ w₂ (hqueue₂.trans hqueue) (htrace₂.trans htrace)

/-- Collecting the hooks of a record changes neither the queue nor the trace. -/
theorem safe_successHookFor {rawRecord : α} {processedRecord : Option α} {onSuccess : List Hook}
    (h : ∀ hooks w', w'.state.queue = w.state.queue → w'.trace = w.trace → Q hooks w₀ w') :
    (successHookFor rawRecord processedRecord onSuccess).Safe C Q E w₀ w := by
  unfold successHookFor
  cases processedRecord with
  | none =>
    rw [safe_bind]
    exact safe_popSuccessHooks fun hooks w' => h _ w'
  | some processed =>
    rw [safe_bind]
    exact safe_popSuccessHooks fun hooks w' => h _ w'

end

end Hooks

/-- The frame rule for the delivery of records: a property of the trace that the marks and the calls
keep is kept, and so is the queue of pending writes. -/
theorem safe_deliveryFrame
    {assume ensure : RunTrace α χ → Event (Call α χ) Call.Ret (Mark α χ) → Prop} {mayHang : Prop}
    {T : RunTrace α χ → Prop}
    (hmark : ∀ t m, M m → assume t (.mark m) → T t → ensure t (.mark m) ∧ T (t ++ [.mark m]))
    (hcall : ∀ t o r, assume t (.called o r) → T t →
      ensure t (.called o r) ∧ T (t ++ [.called o r]))
    {p : Delivery ℓ α χ β} (hp : p.Within (deliveryFrame ℓ M)) {w₀ w : RunWorld ℓ α χ}
    (hw : T w.trace) :
    p.Safe (.alone assume ensure mayHang)
      (fun _ _ w' => w'.state.queue = w.state.queue ∧ T w'.trace)
      (fun _ _ w' => w'.state.queue = w.state.queue ∧ T w'.trace) w₀ w := by
  refine Safe.frame (F := deliveryFrame ℓ M)
    (J := fun w' => w'.state.queue = w.state.queue ∧ T w'.trace)
    (fun w' s hw' hs => ⟨Eq.trans hs hw'.1, hw'.2⟩) (fun w' m hm hw' ha => ?_)
    (fun w' o r _ hw' ha => ?_) (fun hhang => False.elim hhang) hp ⟨rfl, hw⟩
  · obtain ⟨hens, hT⟩ := hmark _ m hm ha hw'.2
    exact ⟨hens, hw'.1, hT⟩
  · obtain ⟨hens, hT⟩ := hcall _ o r ha hw'.2
    exact ⟨hens, hw'.1, hT⟩

/-- The frame rule for programs that resolve records: the checkpoint state is kept as well. -/
theorem safe_resolveFrame
    {assume ensure : RunTrace α χ → Event (Call α χ) Call.Ret (Mark α χ) → Prop} {mayHang : Prop}
    {T : RunTrace α χ → Prop}
    (hmark : ∀ t m, M m → assume t (.mark m) → T t → ensure t (.mark m) ∧ T (t ++ [.mark m]))
    (hcall : ∀ t o r, o.isSave = false → assume t (.called o r) → T t →
      ensure t (.called o r) ∧ T (t ++ [.called o r]))
    {p : Delivery ℓ α χ β} (hp : p.Within (resolveFrame ℓ M)) {w₀ w : RunWorld ℓ α χ}
    (hw : T w.trace) :
    p.Safe (.alone assume ensure mayHang)
      (fun _ _ w' => w'.state.queue = w.state.queue ∧
        w'.state.checkpointState = w.state.checkpointState ∧ T w'.trace)
      (fun _ _ w' => w'.state.queue = w.state.queue ∧
        w'.state.checkpointState = w.state.checkpointState ∧ T w'.trace) w₀ w := by
  refine Safe.frame (F := resolveFrame ℓ M)
    (J := fun w' => w'.state.queue = w.state.queue ∧
      w'.state.checkpointState = w.state.checkpointState ∧ T w'.trace)
    (fun w' s hw' hs => ⟨Eq.trans hs.1 hw'.1, Eq.trans hs.2 hw'.2.1, hw'.2.2⟩)
    (fun w' m hm hw' ha => ?_) (fun w' o r ho hw' ha => ?_) (fun hhang => False.elim hhang) hp
    ⟨rfl, rfl, hw⟩
  · obtain ⟨hens, hT⟩ := hmark _ m hm ha hw'.2.2
    exact ⟨hens, hw'.1, hw'.2.1, hT⟩
  · obtain ⟨hens, hT⟩ := hcall _ o r ho ha hw'.2.2
    exact ⟨hens, hw'.1, hw'.2.1, hT⟩

/-- The frame rule for programs that deliver nothing. -/
theorem safe_chainFrame
    {assume ensure : RunTrace α χ → Event (Call α χ) Call.Ret (Mark α χ) → Prop} {mayHang : Prop}
    {T : RunTrace α χ → Prop}
    (hcall : ∀ t o r, o.isSave = false → assume t (.called o r) → T t →
      ensure t (.called o r) ∧ T (t ++ [.called o r]))
    {p : Delivery ℓ α χ β} (hp : p.Within (chainFrame ℓ)) {w₀ w : RunWorld ℓ α χ}
    (hw : T w.trace) :
    p.Safe (.alone assume ensure mayHang)
      (fun _ _ w' => w'.state.queue = w.state.queue ∧ T w'.trace)
      (fun _ _ w' => w'.state.queue = w.state.queue ∧ T w'.trace) w₀ w :=
  (safe_resolveFrame (fun _ _ hm => hm.elim) hcall hp hw).mono (fun _ _ _ h => ⟨h.1, h.2.2⟩)
    fun _ _ _ h => ⟨h.1, h.2.2⟩

end Basics

namespace DeliveryEngine

variable {M : Mark α χ → Prop} (d : DeliveryEngine α χ)

/-- The check of the fence delivers nothing. -/
theorem within_assertRunFenceActive :
    (d.assertRunFenceActive : Delivery ℓ α χ Unit).Within (chainFrame ℓ) :=
  within_ite
    (within_bind (within_chainInvoke rfl) fun _ => within_ite (within_ret ()) (within_raise _))
    (within_ret ())

/-- The write itself leaves no mark: its result is marked by what resolves it. -/
theorem within_writeOne (record : α) :
    (d.writeOne record : Delivery ℓ α χ WriteResult).Within (chainFrame ℓ) :=
  within_bind d.within_assertRunFenceActive fun _ => within_bind (within_chainInvoke rfl) fun _ =>
    within_bind (within_modify fun _ => ⟨rfl, rfl⟩) fun _ => within_ret _

/-- Nor does the write of a batch. -/
theorem within_writeBatch (records : List α) :
    (d.writeBatch records : Delivery ℓ α χ (List WriteResult)).Within (chainFrame ℓ) :=
  within_bind d.within_assertRunFenceActive fun _ => within_bind (within_chainInvoke rfl) fun _ =>
    within_bind (within_modify fun _ => ⟨rfl, rfl⟩) fun _ => within_ret _

/-- Nor does the write of an Arrow batch. -/
theorem within_writeArrowBatch (rows : List α) :
    (d.writeArrowBatch rows : Delivery ℓ α χ Unit).Within (chainFrame ℓ) :=
  within_bind d.within_assertRunFenceActive fun _ => within_bind (within_chainInvoke rfl) fun _ =>
    within_modify fun _ => ⟨rfl, rfl⟩

/-- An attempt to capture a failure leaves no mark of its own. -/
theorem within_attemptDlqWrite (stage : String) (exc : Exc) (record : α)
    (processedRecord : Option α) (checkpoint : Option χ) (middleware : Option String) :
    (d.attemptDlqWrite stage exc record processedRecord checkpoint middleware :
      Delivery ℓ α χ Unit).Within (chainFrame ℓ) := by
  refine within_bind d.within_assertRunFenceActive fun _ => ?_
  cases checkpoint with
  | none => exact within_bind (within_chainInvoke rfl) fun _ => within_chainInvoke rfl
  | some value => exact within_chainInvoke rfl

/-- Capturing a failure leaves at most the mark that it was not captured. -/
theorem within_writeToDlq {stage : String} (hM : AllowsUncaptured M stage) (exc : Exc) (record : α)
    (processedRecord : Option α) (checkpoint : Option χ) (middleware : Option String) :
    (d.writeToDlq stage exc record processedRecord checkpoint middleware :
      Delivery ℓ α χ Bool).Within (resolveFrame ℓ M) := by
  refine within_ite (within_bind (within_note (hM _)) fun _ => within_ret _) ?_
  refine within_bind (within_attempt (within_resolve_of_chain (d.within_attemptDlqWrite _ _ _ _ _ _)))
    fun written => ?_
  cases written with
  | ok u => exact within_ret _
  | error dlqExc =>
    refine within_ite ?_ (within_bind (within_note (hM _)) fun _ => within_raise _)
    refine within_bind (within_modify fun _ => ⟨rfl, rfl⟩) fun _ => ?_
    exact within_bind (within_note (hM _)) fun _ => within_ite (within_raise _) (within_ret _)

section Rules

variable {assume ensure : RunTrace α χ → Event (Call α χ) Call.Ret (Mark α χ) → Prop}
  {mayHang : Prop} {J E : RunWorld ℓ α χ → Prop} {w₀ w : RunWorld ℓ α χ}

/-- What no answer about the fence breaks, validating the fence keeps. -/
theorem safe_assertRunFenceActive_of (hw : J w)
    (hfence : ∀ r, J (w.called (.await .validateFence) r)) :
    (d.assertRunFenceActive : Delivery ℓ α χ Unit).Safe (.alone assume (fun _ _ => True) mayHang)
      (fun _ _ w' => J w') (fun _ _ w' => J w') w₀ w := by
  unfold DeliveryEngine.assertRunFenceActive
  split
  · rw [safe_bind, safe_invoke]
    intro r _
    refine ⟨trivial, ?_⟩
    cases r with
    | error exc => exact hfence _
    | ok active =>
      dsimp only
      split
      · exact hfence _
      · exact hfence _
  · exact hw

/-- The rule for an attempt to capture a failure: `J` holds until the dead letter is offered. -/
theorem safe_attemptDlqWrite_of {Q : RunWorld ℓ α χ → Prop} {stage : String} {exc : Exc} {record : α}
    {processed : Option α} {checkpoint : Option χ} {middleware : Option String} (hw : J w)
    (hfence : ∀ r, J (w.called (.await .validateFence) r))
    (hcheckpoint : ∀ {w'} r, J w' → J (w'.called (.await .currentCheckpoint) r))
    (hbefore : ∀ {w'}, J w' → E w')
    (hcaptured : ∀ {w'} value, J w' → Q (w'.called (.await (.dlqWrite
      (d.dlqRecord stage exc (some record) (some record) processed value middleware))) (.ok ())))
    (hrefused : ∀ {w'} value dlqExc, J w' → E (w'.called (.await (.dlqWrite
      (d.dlqRecord stage exc (some record) (some record) processed value middleware)))
        (.error dlqExc))) :
    (d.attemptDlqWrite stage exc record processed checkpoint middleware : Delivery ℓ α χ Unit).Safe
      (.alone assume (fun _ _ => True) mayHang) (fun _ _ w' => Q w') (fun _ _ w' => E w') w₀ w := by
  have hwrite : ∀ (value : Option χ) {w₀ w' : RunWorld ℓ α χ}, J w' →
      (invoke (.dlqWrite (d.dlqRecord stage exc (some record) (some record) processed value
        middleware)) : Delivery ℓ α χ Unit).Safe (.alone assume (fun _ _ => True) mayHang)
        (fun _ _ w' => Q w') (fun _ _ w' => E w') w₀ w' := by
    intro value w₀ w' hw'
    rw [safe_invoke]
    intro r _
    refine ⟨trivial, ?_⟩
    cases r with
    | error dlqExc => exact hrefused value dlqExc hw'
    | ok u => exact hcaptured value hw'
  unfold DeliveryEngine.attemptDlqWrite
  rw [safe_bind]
  refine (d.safe_assertRunFenceActive_of hw hfence).mono (fun _ _ w' hw' => ?_)
    fun _ _ _ hw' => hbefore hw'
  cases checkpoint with
  | some value => exact hwrite _ hw'
  | none =>
    dsimp only
    rw [safe_bind]
    refine safe_invoke.mpr fun r _ => ⟨trivial, ?_⟩
    cases r with
    | error exc => exact hbefore (hcheckpoint _ hw')
    | ok value => exact hwrite _ (hcheckpoint _ hw')

/-- The rule for capturing a failure, from what an attempt does: where the attempt fails, or there is
none, the failure is reported as not captured. -/
theorem safe_writeToDlq_of {R : Bool → RunWorld ℓ α χ → Prop} {stage : String} {exc : Exc} {record : α}
    {processed : Option α} {checkpoint : Option χ} {middleware : Option String} (hw : J w)
    (hattempt : exc.dlqEligible = true →
      (d.attemptDlqWrite stage exc record processed checkpoint middleware :
        Delivery ℓ α χ Unit).Safe (.alone assume ensure mayHang) (fun _ _ w' => R true w')
        (fun _ _ w' => J w') w₀ w)
    (hcount : ∀ {w'} metrics, J w' → J (w'.write { w'.state with metrics := metrics }))
    (hlost : ∀ {w'}, J w' → assume w'.trace (.mark (.uncaptured stage false)) →
      ensure w'.trace (.mark (.uncaptured stage false)) ∧
        R false (w'.mark (.uncaptured stage false)))
    (hraised : ∀ {w'}, J w' → assume w'.trace (.mark (.uncaptured stage true)) →
      ensure w'.trace (.mark (.uncaptured stage true)) ∧ E (w'.mark (.uncaptured stage true))) :
    (d.writeToDlq stage exc record processed checkpoint middleware : Delivery ℓ α χ Bool).Safe
      (.alone assume ensure mayHang) (fun routed _ w' => R routed w') (fun _ _ w' => E w') w₀ w := by
  unfold DeliveryEngine.writeToDlq
  split
  · rw [safe_bind, safe_note]
    exact hlost hw
  · rename_i hnot
    have heligible : exc.dlqEligible = true := eq_true_of_ne_false fun h => hnot (.inr h)
    rw [safe_bind, safe_attempt]
    refine (hattempt heligible).mono (fun _ _ _ hw' => hw') fun dlqExc _ w' hw' => ?_
    dsimp only
    split
    · rw [safe_bind, safe_modify, safe_bind, safe_note]
      by_cases hpolicy : d.dlqFailurePolicy = .raise
      · rw [if_pos hpolicy, decide_eq_true hpolicy]
        exact hraised (hcount _ hw')
      · rw [if_neg hpolicy, decide_eq_false hpolicy]
        exact hlost (hcount _ hw')
    · rw [safe_bind, safe_note]
      exact hraised hw'

end Rules

/-- Saving a checkpoint changes the checkpoint state, and no lane or queue. -/
theorem within_persistCheckpoint (checkpoint : Checkpoint χ) (batchSize : ℕ) :
    (d.persistCheckpoint checkpoint batchSize : Delivery ℓ α χ Unit).Within (deliveryFrame ℓ M) := by
  refine within_bind (within_catchException ?_ fun exc => ?_) fun saved => ?_
  · refine within_bind (within_of_chain d.within_assertRunFenceActive) fun _ => ?_
    have hsave := within_bind (within_invoke (ℓ := ℓ) (M := M)
      (.saveCheckpoint d.checkpointKey checkpoint)) fun _ => within_ret true
    exact within_ite (within_bind (within_raise _) fun _ => hsave) hsave
  · exact within_bind (within_modify fun _ => rfl) fun _ => within_ite (within_ret _) (within_raise _)
  · exact within_bind (within_modify fun _ => rfl) fun _ =>
      within_ite (within_modify fun _ => rfl) (within_ret ())

/-- So does saving the checkpoint that is due. -/
theorem within_persistPending (pending : Option (Checkpoint χ × ℕ)) :
    (d.persistPending pending : Delivery ℓ α χ Unit).Within (deliveryFrame ℓ M) := by
  cases pending with
  | none => exact within_ret ()
  | some p => exact d.within_persistCheckpoint p.1 p.2

section Checkpoints

variable [DecidableEq χ]

/-- The counter of the cadence belongs to the checkpoint state. -/
theorem within_countProcessed (value : χ) (n : ℕ) :
    (d.countProcessed value n : Delivery ℓ α χ (Option (Checkpoint χ))).Within (deliveryFrame ℓ M) :=
  within_bind (within_modify fun _ => rfl) fun _ => within_bind within_read fun _ =>
    within_ite (within_ret _) (within_ret _)

/-- Asking whether a checkpoint is due stays within the frame of the engine. -/
theorem within_prepareCheckpoint (value : Option χ) :
    (d.prepareCheckpoint value : Delivery ℓ α χ (Option (Checkpoint χ))).Within
      (deliveryFrame ℓ M) := by
  unfold prepareCheckpoint
  split
  · exact d.within_countProcessed _ _
  · exact within_ret _

/-- Saving a record's checkpoint stays within the frame of the engine. -/
theorem within_saveCheckpoint (value : Option χ) :
    (d.saveCheckpoint value : Delivery ℓ α χ Unit).Within (deliveryFrame ℓ M) :=
  within_bind (d.within_prepareCheckpoint value) fun _ => d.within_persistPending _

/-- Saving a batch's checkpoint stays within the frame of the engine. -/
theorem within_saveBatchCheckpoint (value : Option χ) (batchSize : ℕ) :
    (d.saveBatchCheckpoint value batchSize : Delivery ℓ α χ Unit).Within (deliveryFrame ℓ M) := by
  unfold saveBatchCheckpoint
  split
  · exact within_ite (within_ret ()) (within_bind (d.within_countProcessed _ _) fun _ =>
      d.within_persistPending _)
  · exact within_ret ()

omit [DecidableEq χ] in
/-- The end of a commit stays within the frame of the engine. -/
theorem within_finishCommit (pending : PendingCommit χ) :
    (d.finishCommit pending : Delivery ℓ α χ Unit).Within (deliveryFrame ℓ M) :=
  within_bind (d.within_persistPending _) fun _ => within_of_resolve (within_runHooks _)

/-- Adding a record to a commit stays within the frame of the engine. -/
theorem within_preparePending (pending : PendingCommit χ) (checkpoint : Option χ)
    (hooks : List Hook) :
    (d.preparePending pending checkpoint hooks :
      Delivery ℓ α χ (PendingCommit χ)).Within (deliveryFrame ℓ M) := by
  refine within_bind (d.within_prepareCheckpoint checkpoint) fun prepared => ?_
  cases prepared with
  | none => exact within_ret _
  | some c => exact within_ret _

/-- The commit of one record stays within the frame of the engine. -/
theorem within_commitCheckpointed (checkpoint : Option χ) (onSuccess : List Hook) :
    (d.commitCheckpointed checkpoint onSuccess : Delivery ℓ α χ Unit).Within (deliveryFrame ℓ M) :=
  within_bind (d.within_saveCheckpoint checkpoint) fun _ => within_of_resolve (within_runHooks _)

/-- The commit of an outcome stays within the frame of the engine. -/
theorem within_commitOutcome (outcome : CommitOutcome χ) :
    (d.commitOutcome outcome : Delivery ℓ α χ Unit).Within (deliveryFrame ℓ M) := by
  cases outcome with
  | erroredUnrouted exc => exact within_ite (within_raise _) (within_ret ())
  | written checkpoint onSuccess => exact d.within_commitCheckpointed _ _
  | dropped checkpoint onSuccess => exact d.within_commitCheckpointed _ _
  | erroredRouted checkpoint onSuccess => exact d.within_commitCheckpointed _ _

/-- The commit of the outcomes of a batch stays within the frame of the engine. -/
theorem within_commitOutcomesFrom (pending : PendingCommit χ) (outcomes : List (CommitOutcome χ)) :
    (d.commitOutcomesFrom pending outcomes : Delivery ℓ α χ Unit).Within (deliveryFrame ℓ M) := by
  induction outcomes generalizing pending with
  | nil => exact d.within_finishCommit pending
  | cons outcome outcomes ih =>
    cases outcome with
    | erroredUnrouted exc =>
      exact within_bind (d.within_finishCommit pending) fun _ => within_ite (within_raise _) (ih _)
    | written checkpoint onSuccess =>
      exact within_bind (d.within_preparePending _ _ _) fun _ => ih _
    | dropped checkpoint onSuccess =>
      exact within_bind (d.within_preparePending _ _ _) fun _ => ih _
    | erroredRouted checkpoint onSuccess =>
      exact within_bind (d.within_preparePending _ _ _) fun _ => ih _

/-- A batch whose write raised leaves the marks of writes, and touches no lane or queue. -/
theorem within_flushBatchOutcomesFrom (hM : AllowsWrites M) (exc : Exc) (pending : PendingCommit χ)
    (items : List (PendingWrite α χ)) :
    (d.flushBatchOutcomesFrom exc pending items : Delivery ℓ α χ Unit).Within (deliveryFrame ℓ M) := by
  induction items generalizing pending with
  | nil => exact d.within_finishCommit pending
  | cons item items ih =>
    refine within_bind (within_of_resolve (d.within_writeToDlq hM.sinkWrite _ _ _ _ _)) fun routed => ?_
    refine within_bind (within_of_resolve (within_count _)) fun _ => within_ite ?_ ?_
    · exact within_bind (within_note (hM.settled _ _)) fun _ =>
        within_bind (d.within_preparePending _ _ _) fun _ => ih _
    · exact within_bind (d.within_finishCommit pending) fun _ => within_raise _

end Checkpoints

/-- Routing the errors of a write result leaves at most marks of writes. -/
theorem within_routeErrors (hM : AllowsWrites M) (rawRecord processedRecord : α)
    (checkpoint : Option χ) (errors : List Exc) :
    (d.routeErrors rawRecord processedRecord checkpoint errors :
      Delivery ℓ α χ Bool).Within (resolveFrame ℓ M) := by
  induction errors with
  | nil => exact within_ret _
  | cons err errors ih =>
    exact within_bind (d.within_writeToDlq hM.sinkWrite _ _ _ _ _) fun _ =>
      within_bind ih fun _ => within_ret _

/-- Resolving a write result leaves marks of writes and saves nothing. -/
theorem within_resolveWriteResult (hM : AllowsWrites M) (writeResult : WriteResult)
    (rawRecord processedRecord : α) (checkpoint : Option χ) (onSuccess : List Hook) :
    (d.resolveWriteResult writeResult rawRecord processedRecord checkpoint onSuccess :
      Delivery ℓ α χ (CommitOutcome χ)).Within (resolveFrame ℓ M) := by
  unfold resolveWriteResult
  cases writeResult.errors with
  | nil =>
    exact within_ite
      (within_bind (within_count _) fun _ => within_bind (within_note (hM.settled _ _)) fun _ =>
        within_ret _)
      (within_bind (within_count _) fun _ => within_bind (within_note (hM.settled _ _)) fun _ =>
        within_ret _)
  | cons first rest =>
    refine within_bind (d.within_routeErrors hM _ _ _ _) fun routedAll => ?_
    refine within_bind (within_count _) fun _ => ?_
    refine within_ite (within_bind (within_count _) fun _ => ?_) ?_
    all_goals
      exact within_ite (within_bind (within_note (hM.settled _ _)) fun _ => within_ret _)
        (within_ret _)

section Records

variable [DecidableEq α]

/-- Resolving one record of a batch leaves marks of writes and saves nothing. -/
theorem within_resolveRecord (hM : AllowsWrites M) (writeResult : WriteResult)
    (rawRecord processedRecord : α) (checkpoint : Option χ) (onSuccess : List Hook) :
    (d.resolveRecord writeResult rawRecord processedRecord checkpoint onSuccess :
      Delivery ℓ α χ (CommitOutcome χ)).Within (resolveFrame ℓ M) :=
  within_bind (within_successHookFor _ _ _) fun _ => d.within_resolveWriteResult hM _ _ _ _ _

/-! ## Batch writes -/

omit [DecidableEq α] in
/-- Routing the pairs of a failed batch leaves at most marks of failures that were not captured. -/
theorem within_routeAll {stage : String} (hM : AllowsUncaptured M stage) (exc : Exc)
    (checkpoint : Option χ) (middleware : Option String) (pairs : List (α × Option α)) :
    (d.routeAll stage exc checkpoint middleware pairs :
      Delivery ℓ α χ Bool).Within (resolveFrame ℓ M) := by
  induction pairs with
  | nil => exact within_ret _
  | cons pair pairs ih =>
    exact within_bind (d.within_writeToDlq hM _ _ _ _ _) fun _ => within_bind ih fun _ =>
      within_ret _

/-- Running the hooks of all pairs stays within the frame of resolving. -/
theorem within_runPairHooks (pairs : List (α × α)) :
    (runPairHooks pairs : Delivery ℓ α χ Unit).Within (resolveFrame ℓ M) := by
  induction pairs with
  | nil => exact within_ret ()
  | cons pair pairs ih =>
    exact within_bind (within_successHookFor _ _ _) fun _ =>
      within_bind (within_runHooks _) fun _ => ih

/-- Resolving the pairs of a batch leaves marks of writes and saves nothing. -/
theorem within_resolvePairs (hM : AllowsWrites M) (checkpoint : Option χ)
    (items : List ((α × α) × WriteResult)) :
    (d.resolvePairs checkpoint items :
      Delivery ℓ α χ (List (CommitOutcome χ))).Within (resolveFrame ℓ M) := by
  induction items with
  | nil => exact within_ret _
  | cons item items ih =>
    exact within_bind (within_successHookFor _ _ _) fun _ =>
      within_bind (d.within_resolveRecord hM _ _ _ _ _) fun _ => within_bind ih fun _ =>
        within_ret _

/-- Collecting the hooks of the dropped records stays within the frame of resolving. -/
theorem within_droppedHooks (records : List α) :
    (droppedHooks records : Delivery ℓ α χ (List (List Hook))).Within (resolveFrame ℓ M) := by
  induction records with
  | nil => exact within_ret _
  | cons record records ih =>
    exact within_bind (within_successHookFor _ _ _) fun _ => within_bind ih fun _ => within_ret _

variable [DecidableEq χ]

/-- A batch whose write raised leaves the marks of writes. -/
theorem within_batchWriteFailed (hM : AllowsWrites M) (exc : Exc) (checkpoint : Option χ)
    (batchSize : ℕ) (pairs : List (α × α)) (hooks : List Hook) :
    (d.batchWriteFailed exc checkpoint batchSize pairs hooks :
      Delivery ℓ α χ Unit).Within (deliveryFrame ℓ M) := by
  refine within_bind (within_of_resolve (d.within_routeAll hM.sinkWrite _ _ _ _)) fun routed => ?_
  refine within_bind (within_of_resolve (within_count _)) fun _ => within_ite ?_ (within_raise _)
  refine within_bind (d.within_saveBatchCheckpoint _ _) fun _ => ?_
  exact within_bind (within_of_resolve (within_runHooks _)) fun _ =>
    within_ite (within_of_resolve (within_runPairHooks _)) (within_ret ())

/-- Writing the pairs of a batch leaves the marks of writes. -/
theorem within_writePairs (hM : AllowsWrites M) (checkpoint : Option χ) (batchSize : ℕ)
    (pairs : List (α × α)) (dropped : List (List Hook)) :
    (d.writePairs checkpoint batchSize pairs dropped :
      Delivery ℓ α χ Unit).Within (deliveryFrame ℓ M) := by
  refine within_bind (within_catchSinkException
    (within_bind (within_of_chain (d.within_writeBatch _)) fun _ => within_ret _) fun exc =>
      within_bind (d.within_batchWriteFailed hM _ _ _ _ _) fun _ => within_ret _) fun written => ?_
  cases written with
  | none => exact within_ret ()
  | some writeResults =>
    exact within_bind (within_validateWriteResultCount _ _ _) fun _ =>
      within_bind (within_of_resolve (d.within_resolvePairs hM _ _)) fun _ => d.within_commitOutcomesFrom _ _

/-- Writing what a chain has left of a batch leaves the marks of writes. -/
theorem within_writeBatchFiltered (hM : AllowsWrites M) (results : List (Option α))
    (rawBatch : List α) (checkpoint : Option χ) :
    (d.writeBatchFiltered results rawBatch checkpoint :
      Delivery ℓ α χ Unit).Within (deliveryFrame ℓ M) := by
  refine within_ite (within_raise _) ?_
  refine within_bind (within_of_resolve (within_count _)) fun _ =>
    within_bind (within_of_resolve (within_droppedHooks _)) fun hooks => ?_
  exact within_ite
    (within_bind (d.within_saveBatchCheckpoint _ _) fun _ => within_of_resolve (within_runHooks _))
    (d.within_writePairs hM _ _ _ _)

omit [DecidableEq α] in
/-- A batch that failed in a middleware leaves the marks of that failure. -/
theorem within_writeBatchMiddlewareFailure (hM : AllowsUncaptured M "batch_middleware")
    (rawBatch : List α) (checkpoint : Option χ) (failure : BatchFailure) :
    (d.writeBatchMiddlewareFailure rawBatch checkpoint failure :
      Delivery ℓ α χ Unit).Within (deliveryFrame ℓ M) := by
  refine within_bind (within_of_resolve (within_count _)) fun _ =>
    within_ite ?_ (within_ite ?_ (within_raise _))
  · exact within_bind (within_of_resolve (d.within_routeAll hM _ _ _ _)) fun _ =>
      within_ite (d.within_saveBatchCheckpoint _ _) (within_ret ())
  · exact d.within_saveBatchCheckpoint _ _

/-- Delivering a batch result: a failed batch needs the marks of its failure, the others those of a
write. -/
theorem within_writeBatchResult (hM : AllowsWrites M) {result : BatchProcessResult α}
    (hfailure : result.failure.isSome = true → AllowsUncaptured M "batch_middleware")
    (rawBatch : List α) (checkpoint : Option χ) :
    (d.writeBatchResult result rawBatch checkpoint :
      Delivery ℓ α χ Unit).Within (deliveryFrame ℓ M) := by
  unfold writeBatchResult
  cases hresult : result.failure with
  | some failure => exact d.within_writeBatchMiddlewareFailure (hfailure (by simp [hresult])) _ _ _
  | none =>
    exact within_ite (d.within_writePairs hM _ _ _ _) (d.within_writeBatchFiltered hM _ _ _)

end Records

end DeliveryEngine

end AgoraEtl
