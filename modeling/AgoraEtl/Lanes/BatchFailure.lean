import AgoraEtl.Lanes.BatchTermination

/-!
# Batches whose middleware failed

A batch whose middleware failed is routed to the dead-letter queue record by record.  The run has to
stop when a record could not be captured there, because the next batch that succeeds saves a
checkpoint behind it.  The list path does not stop when the dead-letter write fails and its policy is
to log the failure only; it stops when that write raises.  Under this condition, and when the
pipelined lane finalizes in source order and ends on the failure, the failed batch is the last one
finalized, no checkpoint is saved for it, and the run raises.
-/

namespace AgoraEtl

open Effect Program

variable {ℓ α χ ρ β : Type}

/-! ## What a trace says about uncaptured failures -/

/-- A failure of a batch middleware was not captured in the dead-letter queue. -/
def isUncaptured : Event (Call α χ) Call.Ret (Mark α χ) → Bool
  | .mark (.uncaptured stage _) => stage == "batch_middleware"
  | _ => false

/-- A checkpoint is saved. -/
def isSaveEvent : Event (Call α χ) Call.Ret (Mark α χ) → Bool
  | .called o _ => o.isSave
  | .mark _ => false

/-- Every failure of a batch middleware was captured. -/
def AllCaptured (t : RunTrace α χ) : Prop := ∀ e ∈ t, isUncaptured e = false

/-- The batch has begun to be finalized after the batches `done`, and no other batch since; `saves`
says whether checkpoints may have been saved since, `captured` whether all failures have been
captured. -/
def Finalizing (done : List (SourceBatch α χ)) (batch : SourceBatch α χ) (saves captured : Bool)
    (t : RunTrace α χ) : Prop :=
  ∃ before since, t = before ++ .mark (.finalizing batch) :: since ∧ finalized before = done ∧
    AllCaptured before ∧ ∀ e ∈ since, finalized [e] = [] ∧
      (isSaveEvent e = true → saves = true) ∧ (isUncaptured e = true → captured = false)

/-- Finalizing the batch has raised: unless all failures have been captured, no checkpoint was saved
for it. -/
def Failed (done : List (SourceBatch α χ)) (batch : SourceBatch α χ) (t : RunTrace α χ) : Prop :=
  Finalizing done batch true true t ∨ Finalizing done batch false false t

/-- If a failure was not captured, it is that of the batch finalized last, the batches before it in
the stream are those finalized before, and no checkpoint was saved for it. -/
def Stopped (batches : List (SourceBatch α χ)) (t : RunTrace α χ) : Prop :=
  AllCaptured t ∨ ∃ earlier batch later, batches = earlier ++ batch :: later ∧
    Finalizing earlier batch false false t

section Traces

variable {batches done : List (SourceBatch α χ)} {batch : SourceBatch α χ}
  {saves saves' captured captured' : Bool} {t : RunTrace α χ}
  {e : Event (Call α χ) Call.Ret (Mark α χ)}

/-- The finalized batches of two parts of a run follow one another. -/
theorem finalized_append (t t' : RunTrace α χ) : finalized (t ++ t') = finalized t ++ finalized t' :=
  marked_append _ t t'

/-- At the start every failure is captured. -/
theorem allCaptured_nil : AllCaptured ([] : RunTrace α χ) := by
  intro e he
  cases he

/-- They are as long as no event says otherwise. -/
theorem AllCaptured.snoc (h : AllCaptured t) (he : isUncaptured e = false) :
    AllCaptured (t ++ [e]) := by
  intro e' he'
  rcases List.mem_append.mp he' with he' | he'
  · exact h e' he'
  · rw [List.mem_singleton.mp he']
    exact he

/-- Finalizing a batch begins with its mark. -/
theorem Finalizing.begin (h : AllCaptured t) (saves : Bool) :
    Finalizing (finalized t) batch saves true (t ++ [.mark (.finalizing batch)]) := by
  refine ⟨t, [], rfl, rfl, h, fun e he => ?_⟩
  cases he

/-- It goes on with events that finalize nothing. -/
theorem Finalizing.snoc (h : Finalizing done batch saves captured t) (he : finalized [e] = [])
    (hsave : isSaveEvent e = true → saves = true)
    (hcaptured : isUncaptured e = true → captured = false) :
    Finalizing done batch saves captured (t ++ [e]) := by
  obtain ⟨before, since, rfl, hdone, hbefore, hsince⟩ := h
  refine ⟨before, since ++ [e], by simp, hdone, hbefore, fun e' he' => ?_⟩
  rcases List.mem_append.mp he' with he' | he'
  · exact hsince e' he'
  · rw [List.mem_singleton.mp he']
    exact ⟨he, hsave, hcaptured⟩

/-- Less may be said of its saves and its failures. -/
theorem Finalizing.mono (h : Finalizing done batch saves captured t)
    (hsaves : saves = true → saves' = true) (hcaptured : captured = false → captured' = false) :
    Finalizing done batch saves' captured' t := by
  obtain ⟨before, since, ht, hdone, hbefore, hsince⟩ := h
  refine ⟨before, since, ht, hdone, hbefore, fun e he => ?_⟩
  obtain ⟨hfinalized, hs, hc⟩ := hsince e he
  exact ⟨hfinalized, fun h => hsaves (hs h), fun h => hcaptured (hc h)⟩

/-- Checkpoints may be saved from now on. -/
theorem Finalizing.saving (h : Finalizing done batch false true t) :
    Finalizing done batch true true t := h.mono (by simp) id

/-- The batch is the last one that was finalized. -/
theorem Finalizing.finalized_eq (h : Finalizing done batch saves captured t) :
    finalized t = done ++ [batch] := by
  obtain ⟨before, since, rfl, hdone, -, hsince⟩ := h
  have hnil : finalized since = [] := by
    induction since with
    | nil => rfl
    | cons e since ih =>
      change finalized ([e] ++ since) = []
      rw [finalized_append, (hsince e List.mem_cons_self).1]
      exact ih fun e' he' => hsince e' (List.mem_cons_of_mem _ he')
  change finalized (before ++ ([.mark (.finalizing batch)] ++ since)) = done ++ [batch]
  rw [finalized_append, finalized_append, hdone, hnil]
  rfl

/-- Where its failures are captured all are. -/
theorem Finalizing.allCaptured (h : Finalizing done batch saves true t) : AllCaptured t := by
  obtain ⟨before, since, rfl, -, hbefore, hsince⟩ := h
  intro e he
  rcases List.mem_append.mp he with he | he
  · exact hbefore e he
  · rcases List.mem_cons.mp he with rfl | he
    · rfl
    · refine Bool.eq_false_iff.mpr fun hu => ?_
      cases (hsince e he).2.2 hu

/-- A failed batch stays the last one while nothing is saved after it. -/
theorem Failed.snoc (h : Failed done batch t) (hfinalized : finalized [e] = [])
    (hsave : isSaveEvent e = false) (hcaptured : isUncaptured e = false) :
    Failed done batch (t ++ [e]) := by
  refine h.imp (fun h => ?_) fun h => ?_
  · exact h.snoc hfinalized (fun _ => rfl) fun hu => by rw [hcaptured] at hu; cases hu
  · exact h.snoc hfinalized (fun hs => by rw [hsave] at hs; cases hs) fun _ => rfl

/-- A run that ends after a failed batch has stopped at it. -/
theorem Failed.stopped {later : List (SourceBatch α χ)} (h : Failed done batch t)
    (hbatches : batches = done ++ batch :: later) : Stopped batches t :=
  h.imp Finalizing.allCaptured fun h => ⟨done, batch, later, hbatches, h⟩

/-- The calls of the lane itself save no checkpoint. -/
theorem Stopped.snoc_lane (h : Stopped batches t) {o : Call α χ} {r : o.Ret}
    (ho : o.isLane = true) : Stopped batches (t ++ [.called o r]) := by
  refine h.imp (fun h => h.snoc rfl) fun ⟨earlier, batch, later, hbatches, h⟩ => ?_
  refine ⟨earlier, batch, later, hbatches, h.snoc rfl (fun hs => ?_) nofun⟩
  rw [isSaveEvent, Call.isSave_eq_false_of_isLane ho] at hs
  cases hs

end Traces

/-! ## Finalizing a batch -/

/-- On the list path every uncaptured failure raises; no batch bypasses pending ones, and the lane
ends after a failed batch. -/
def CapturesOrRaises (arrow : Bool) (_ : RunTrace α χ) (e : Event (Call α χ) Call.Ret (Mark α χ)) :
    Prop :=
  (arrow = false → e ≠ .mark (.uncaptured "batch_middleware" false)) ∧
    (∀ pending, e = .mark (.bypassed pending) → pending = 0) ∧
    ∀ exc streaming pending, e = .mark (.finalizeRaised exc streaming pending) →
      FinalizeFailure.Ends ⟨exc, streaming, pending⟩

/-- The contract of the batch lane; all that is ensured is in its postconditions. -/
abbrev failureContract (σ : Type) (arrow : Bool) : Contract (Call α χ) Call.Ret (Mark α χ) σ :=
  .alone (CapturesOrRaises arrow) (fun _ _ => True) False

section Finalizing

variable {done : List (SourceBatch α χ)} {batch : SourceBatch α χ} {t : RunTrace α χ}
  {saves captured arrow : Bool}

/-- The marks of a write are no failures of a batch middleware. -/
def Mark.IsWrite (m : Mark α χ) : Prop :=
  m.IsDelivery ∧ ∀ raised, m ≠ .uncaptured "batch_middleware" raised

/-- The marks of a write are allowed. -/
theorem allowsWrites_isWrite : AllowsWrites (Mark.IsWrite (α := α) (χ := χ)) :=
  ⟨fun _ _ => ⟨trivial, nofun⟩, fun _ => ⟨trivial, fun _ h => by simp at h⟩⟩

/-- A mark of a write is no failure of a middleware. -/
theorem Mark.IsWrite.isUncaptured {m : Mark α χ} (hm : m.IsWrite) :
    isUncaptured (.mark m : Event (Call α χ) Call.Ret (Mark α χ)) = false := by
  cases m with
  | uncaptured stage raised =>
    by_contra hu
    have hstage : stage = "batch_middleware" := by simpa [AgoraEtl.isUncaptured] using hu
    exact hm.2 raised (by rw [hstage])
  | _ => rfl

/-- Nor does it finalize a batch. -/
theorem Mark.IsWrite.finalized {m : Mark α χ} (hm : m.IsWrite) :
    finalized [(.mark m : Event (Call α χ) Call.Ret (Mark α χ))] = [] := by
  cases m with
  | finalizing batch => exact hm.1.elim
  | _ => rfl

/-- Programs that write go on while all failures have been captured. -/
theorem safe_finalizing_write {p : Delivery ℓ α χ β}
    (hp : p.Within (deliveryFrame ℓ Mark.IsWrite)) {w₀ w : RunWorld ℓ α χ}
    (hw : Finalizing done batch true true w.trace) :
    p.Safe (failureContract _ arrow)
      (fun _ _ w' => w'.state.queue = w.state.queue ∧ Finalizing done batch true true w'.trace)
      (fun _ _ w' => w'.state.queue = w.state.queue ∧ Failed done batch w'.trace) w₀ w := by
  refine (safe_deliveryFrame (T := Finalizing done batch true true)
    (fun _ m hm _ ht => ⟨trivial, ht.snoc hm.finalized (fun _ => rfl) fun hu => ?_⟩)
    (fun _ _ _ _ ht => ⟨trivial, ht.snoc rfl (fun _ => rfl) nofun⟩) hp hw).mono
    (fun _ _ _ h => h) fun _ _ _ h => ⟨h.1, .inl h.2⟩
  rw [hm.isUncaptured] at hu
  cases hu

/-- The checkpoint of a batch is saved after its failures have been captured. -/
theorem safe_finalizing_save {p : Delivery ℓ α χ β}
    (hp : p.Within (deliveryFrame ℓ Mark.IsWrite)) {w₀ w w' : RunWorld ℓ α χ}
    (hqueue : w'.state.queue = w.state.queue) (hw : Finalizing done batch false true w'.trace) :
    p.Safe (failureContract _ arrow)
      (fun _ _ w' => w'.state.queue = w.state.queue ∧ Finalizing done batch true true w'.trace)
      (fun _ _ w' => w'.state.queue = w.state.queue ∧ Failed done batch w'.trace) w₀ w' :=
  (safe_finalizing_write hp hw.saving).mono (fun _ _ _ h => ⟨h.1.trans hqueue, h.2⟩)
    fun _ _ _ h => ⟨h.1.trans hqueue, h.2⟩

/-- Programs that deliver nothing go on in any case. -/
theorem safe_finalizing_chain {p : Delivery ℓ α χ β} (hp : p.Within (chainFrame ℓ))
    {w₀ w : RunWorld ℓ α χ} (hw : Finalizing done batch saves captured w.trace) :
    p.Safe (failureContract _ arrow)
      (fun _ _ w' => w'.state.queue = w.state.queue ∧
        Finalizing done batch saves captured w'.trace)
      (fun _ _ w' => w'.state.queue = w.state.queue ∧
        Finalizing done batch saves captured w'.trace) w₀ w := by
  refine safe_chainFrame (fun _ o r ho _ ht => ⟨trivial, ht.snoc rfl (fun hs => ?_) nofun⟩) hp hw
  rw [isSaveEvent, ho] at hs
  cases hs

/-- A failure of the batch that was not captured. -/
theorem Finalizing.snoc_uncaptured (h : Finalizing done batch false captured t) (raised : Bool) :
    Finalizing done batch false false
      (t ++ [.mark (.uncaptured "batch_middleware" raised)]) :=
  (h.mono (by simp) fun _ => rfl).snoc rfl (fun hsave => absurd hsave Bool.false_ne_true) fun _ => rfl

variable (d : DeliveryEngine α χ)

/-- Routing one record of the failed batch: on the list path a record that is not captured makes the
write raise. -/
theorem safe_writeToDlq_batch (exc : Exc) (record : α) (processed : Option α)
    (checkpoint : Option χ) (middleware : Option String) {w₀ w : RunWorld ℓ α χ}
    (hw : Finalizing done batch false captured w.trace) :
    (d.writeToDlq "batch_middleware" exc record processed checkpoint middleware :
      Delivery ℓ α χ Bool).Safe (failureContract _ arrow)
      (fun routed _ w' => w'.state.queue = w.state.queue ∧
        Finalizing done batch false (captured && routed) w'.trace ∧
          (routed = false → arrow = true))
      (fun _ _ w' => w'.state.queue = w.state.queue ∧
        Finalizing done batch false false w'.trace) w₀ w := by
  refine d.safe_writeToDlq_of (J := fun w' => w'.state.queue = w.state.queue ∧
    Finalizing done batch false captured w'.trace) ⟨rfl, hw⟩ (fun _ => ?_) (fun _ hw' => hw')
    (fun hw' hassume => ⟨trivial, hw'.1, ?_, fun _ => ?_⟩)
    fun hw' _ => ⟨trivial, hw'.1, hw'.2.snoc_uncaptured true⟩
  · refine (safe_finalizing_chain (d.within_attemptDlqWrite _ _ _ _ _ _) hw).mono
      (fun _ _ w' hw' => ⟨hw'.1, ?_, nofun⟩) fun _ _ _ hw' => hw'
    rw [Bool.and_true]
    exact hw'.2
  · rw [Bool.and_false]
    exact hw'.2.snoc_uncaptured false
  · by_contra harrow
    exact hassume.1 (Bool.eq_false_iff.mpr harrow) rfl

/-- Routing all records of the failed batch. -/
theorem safe_routeAll_batch (exc : Exc) (checkpoint : Option χ) (middleware : Option String)
    (pairs : List (α × Option α)) {w₀ w : RunWorld ℓ α χ}
    (hw : Finalizing done batch false captured w.trace) :
    (d.routeAll "batch_middleware" exc checkpoint middleware pairs :
      Delivery ℓ α χ Bool).Safe (failureContract _ arrow)
      (fun routed _ w' => w'.state.queue = w.state.queue ∧
        Finalizing done batch false (captured && routed) w'.trace ∧
          (routed = false → arrow = true))
      (fun _ _ w' => w'.state.queue = w.state.queue ∧
        Finalizing done batch false false w'.trace) w₀ w := by
  induction pairs generalizing captured w₀ w with
  | nil =>
    refine ⟨rfl, ?_, nofun⟩
    rw [Bool.and_true]
    exact hw
  | cons pair pairs ih =>
    unfold DeliveryEngine.routeAll
    rw [safe_bind]
    refine (safe_writeToDlq_batch d _ _ _ _ _ hw).mono (fun ok _ w' hw' => ?_)
      fun _ _ _ he => he
    obtain ⟨hqueue, hfinalizing, hok⟩ := hw'
    rw [safe_bind]
    refine (ih hfinalizing).mono (fun routed _ w'' hw'' => ?_)
      fun _ _ _ he => ⟨he.1.trans hqueue, he.2⟩
    refine ⟨hw''.1.trans hqueue, ?_, fun hfalse => ?_⟩
    · rw [← Bool.and_assoc]
      exact hw''.2.1
    · rcases Bool.and_eq_false_iff.mp hfalse with hfalse | hfalse
      · exact hok hfalse
      · exact hw''.2.2 hfalse

/-- A program that finalizes the batch leaves no uncaptured failure unless it raises, and then it has
saved no checkpoint for the batch. -/
def FinalizesSafely (arrow : Bool) (batch : SourceBatch α χ) (p : Delivery ℓ α χ Unit) : Prop :=
  ∀ w₀ w, AllCaptured w.trace →
    p.Safe (failureContract _ arrow)
      (fun _ _ w' => w'.state.queue = w.state.queue ∧ AllCaptured w'.trace ∧
        finalized w'.trace = finalized w.trace ++ [batch])
      (fun _ _ w' => w'.state.queue = w.state.queue ∧
        Failed (finalized w.trace) batch w'.trace) w₀ w

end Finalizing

section Finalizers

variable {done : List (SourceBatch α χ)} {batch : SourceBatch α χ}

/-- A finalizing program is safe when what follows its mark is. -/
theorem finalizesSafely_of_deliver {arrow : Bool} {p deliver : Delivery ℓ α χ Unit}
    (hp : p = (note (.finalizing batch) >>= fun _ => deliver))
    (hdeliver : ∀ {done w₀} {w : RunWorld ℓ α χ}, Finalizing done batch false true w.trace →
      deliver.Safe (failureContract _ arrow)
        (fun _ _ w' => w'.state.queue = w.state.queue ∧ Finalizing done batch true true w'.trace)
        (fun _ _ w' => w'.state.queue = w.state.queue ∧ Failed done batch w'.trace) w₀ w) :
    FinalizesSafely arrow batch p := by
  intro w₀ w hw
  rw [hp, safe_bind, safe_note]
  refine fun _ => ⟨trivial, ?_⟩
  exact (hdeliver (w := w.mark _) (Finalizing.begin hw false)).mono
    (fun _ _ _ h => ⟨h.1, h.2.allCaptured, h.2.finalized_eq⟩) fun _ _ _ h => h

variable [DecidableEq χ] (c : ExecutionCoordinator α χ)

/-- The failure handler of the list path. -/
theorem safe_writeBatchMiddlewareFailure (failure : BatchFailure) {w₀ w : RunWorld ℓ α χ}
    (hw : Finalizing done batch false true w.trace) :
    (c.delivery.writeBatchMiddlewareFailure batch.rows batch.checkpoint failure :
      Delivery ℓ α χ Unit).Safe (failureContract _ false)
      (fun _ _ w' => w'.state.queue = w.state.queue ∧ Finalizing done batch true true w'.trace)
      (fun _ _ w' => w'.state.queue = w.state.queue ∧ Failed done batch w'.trace) w₀ w := by
  unfold DeliveryEngine.writeBatchMiddlewareFailure countErrored
  rw [safe_bind]
  refine safe_count fun w₁ hqueue₁ htrace₁ => ?_
  have hw₁ : Finalizing done batch false true w₁.trace := by rwa [htrace₁]
  split
  · rw [safe_bind]
    refine (safe_routeAll_batch c.delivery _ _ _ _ hw₁).mono
      (fun routed w₂ w' hw' => ?_) fun _ _ _ he => ⟨he.1.trans hqueue₁, .inr he.2⟩
    obtain ⟨hqueue, hfinalizing, hrouted⟩ := hw'
    replace hqueue := hqueue.trans hqueue₁
    -- on the list path a record that was not captured has raised
    have hall : routed = true := by
      cases routed with
      | true => rfl
      | false => cases hrouted rfl
    subst hall
    split
    · exact safe_finalizing_save (c.delivery.within_saveBatchCheckpoint _ _) hqueue hfinalizing
    · exact ⟨hqueue, hfinalizing.saving⟩
  · split
    · exact safe_finalizing_save (c.delivery.within_saveBatchCheckpoint _ _) hqueue₁ hw₁
    · exact ⟨hqueue₁, .inl hw₁.saving⟩

/-- The failure handler of the Arrow path. -/
theorem safe_arrowMiddlewareFailed (hpolicy : c.delivery.sinkFailurePolicy = .failClosed)
    (failure : BatchFailure) {w₀ w : RunWorld ℓ α χ}
    (hw : Finalizing done batch false true w.trace) :
    (c.arrowMiddlewareFailed batch failure : Delivery ℓ α χ Unit).Safe (failureContract _ true)
      (fun _ _ w' => w'.state.queue = w.state.queue ∧ Finalizing done batch true true w'.trace)
      (fun _ _ w' => w'.state.queue = w.state.queue ∧ Failed done batch w'.trace) w₀ w := by
  have hsave : (do c.delivery.saveBatchCheckpoint batch.checkpoint batch.rows.length; hotFlush :
      Delivery ℓ α χ Unit).Within (deliveryFrame ℓ Mark.IsWrite) :=
    within_bind (c.delivery.within_saveBatchCheckpoint _ _) fun _ => within_hotFlush
  unfold ExecutionCoordinator.arrowMiddlewareFailed countErrored
  rw [safe_bind]
  refine safe_count fun w₁ hqueue₁ htrace₁ => ?_
  have hw₁ : Finalizing done batch false true w₁.trace := by rwa [htrace₁]
  split
  · rw [safe_bind]
    refine (safe_routeAll_batch c.delivery _ _ _ _ hw₁).mono
      (fun routed w₂ w' hw' => ?_) fun _ _ _ he => ⟨he.1.trans hqueue₁, .inr he.2⟩
    obtain ⟨hqueue, hfinalizing, -⟩ := hw'
    replace hqueue := hqueue.trans hqueue₁
    cases routed with
    | true => exact safe_finalizing_save hsave hqueue hfinalizing
    | false =>
      simp only [Bool.false_or, hpolicy, reduceCtorEq, decide_false, Bool.false_eq_true, if_false]
      exact ⟨hqueue, .inr hfinalizing⟩
  · exact safe_finalizing_save hsave hqueue₁ hw₁

/-- A batch of records is finalized without a save after an uncaptured failure. -/
theorem finalizesSafely_listBatch [DecidableEq α] (batch : SourceBatch α χ)
    (result : BatchProcessResult α) :
    FinalizesSafely false batch (c.finalizeListBatchResult batch result : Delivery ℓ α χ Unit) := by
  refine finalizesSafely_of_deliver rfl fun hw => ?_
  rw [safe_bind]
  unfold DeliveryEngine.writeBatchResult
  cases result.failure with
  | some failure =>
    exact (safe_writeBatchMiddlewareFailure c failure hw).mono (fun _ _ _ h => h) fun _ _ _ h => h
  | none =>
    exact (safe_finalizing_write
      (within_ite (c.delivery.within_writePairs allowsWrites_isWrite _ _ _ _)
        (c.delivery.within_writeBatchFiltered allowsWrites_isWrite _ _ _)) hw.saving).mono
      (fun _ _ _ h => h) fun _ _ _ h => h

/-- So is an Arrow batch that no middleware touches. -/
theorem finalizesSafely_passthrough (batch : SourceBatch α χ) :
    FinalizesSafely true batch (c.writePassthroughArrowBatch batch : Delivery ℓ α χ Unit) :=
  finalizesSafely_of_deliver rfl fun hw =>
    safe_finalizing_write (c.within_deliverArrowRows allowsWrites_isWrite _ _) hw.saving

/-- So is an Arrow batch under FAIL_CLOSED. -/
theorem finalizesSafely_arrowBatch (hpolicy : c.delivery.sinkFailurePolicy = .failClosed)
    (batch : SourceBatch α χ) (result : MiddlewareChain.ArrowProcessResult α) :
    FinalizesSafely true batch (c.finalizeArrowBatchResult batch result : Delivery ℓ α χ Unit) := by
  refine finalizesSafely_of_deliver rfl fun hw => ?_
  cases result.failure with
  | some failure => exact safe_arrowMiddlewareFailed c hpolicy failure hw
  | none =>
    exact safe_finalizing_write (within_ite
      (within_bind (c.delivery.within_saveBatchCheckpoint _ _) fun _ => within_hotFlush)
      (c.within_deliverArrowRows allowsWrites_isWrite _ _)) hw.saving

end Finalizers

/-! ## The sequential lane -/

section Lanes

variable {done : List (SourceBatch α χ)} {arrow : Bool}

/-- Running a batch through the chain captures everything and finalizes nothing. -/
theorem safe_captured_chain {p : Delivery ℓ α χ β} (hp : p.Within (chainFrame ℓ))
    {w₀ w : RunWorld ℓ α χ} (hw : AllCaptured w.trace) (hdone : finalized w.trace = done) :
    p.Safe (failureContract _ arrow)
      (fun _ _ w' => w'.state.queue = w.state.queue ∧ AllCaptured w'.trace ∧
        finalized w'.trace = done)
      (fun _ _ w' => w'.state.queue = w.state.queue ∧ AllCaptured w'.trace ∧
        finalized w'.trace = done) w₀ w := by
  refine safe_chainFrame (T := fun t => AllCaptured t ∧ finalized t = done)
    (fun _ _ _ _ _ ht => ⟨trivial, ht.1.snoc rfl, ?_⟩) hp ⟨hw, hdone⟩
  rw [finalized_append, ht.2]
  exact List.append_nil _

variable [DecidableEq α] [DecidableEq χ] (c : ExecutionCoordinator α χ)

/-- The sequential lane stops at a failure that was not captured. -/
theorem safe_runSequentialBatches (hpolicy : c.delivery.sinkFailurePolicy = .failClosed)
    (batches : List (SourceBatch α χ)) {w₀ w : RunWorld ℓ α χ} (hw : w.trace = []) :
    (c.runSequentialBatches batches : Delivery ℓ α χ Unit).Safe (failureContract _ c.arrowChain)
      (fun _ _ w' => AllCaptured w'.trace) (fun _ _ w' => Stopped batches w'.trace) w₀ w := by
  have hstart : AllCaptured w.trace ∧ finalized w.trace = [] := by
    rw [hw]
    exact ⟨allCaptured_nil, rfl⟩
  unfold ExecutionCoordinator.runSequentialBatches
  rw [safe_bind]
  refine (safe_forEach
    (I := fun done _ w' => AllCaptured w'.trace ∧ finalized w'.trace = done)
    (fun done w₀ w' hw' => ?_) (fun done batch rest w₀ w' hbatches hw' => ?_) hstart).mono
    (fun _ _ _ h => h.1) fun _ _ _ h => h
  · exact (safe_captured_chain (within_chainInvoke rfl) hw'.1 hw'.2).mono
      (fun _ _ _ h => h.2) fun _ _ _ h => .inl h.2.1
  · have hfinalize : ∀ (p : Delivery ℓ α χ Unit) (w₀ w : RunWorld ℓ α χ),
        FinalizesSafely c.arrowChain batch p → AllCaptured w.trace → finalized w.trace = done →
        p.Safe (failureContract _ c.arrowChain)
          (fun _ _ w' => AllCaptured w'.trace ∧ finalized w'.trace = done ++ [batch])
          (fun _ _ w' => Stopped batches w'.trace) w₀ w := by
      intro p w₀ w hp hw hdone
      rw [← hdone] at hbatches ⊢
      exact (hp w₀ w hw).mono (fun _ _ _ h => h.2) fun _ _ _ h => h.2.stopped hbatches
    split
    · rename_i harrow
      unfold ExecutionCoordinator.runArrowBatch
      rw [safe_bind]
      refine safe_incConsumed fun _ w₁ _ htrace => ?_
      rw [← htrace] at hw'
      split
      · exact hfinalize _ _ _ (harrow ▸ finalizesSafely_passthrough c batch) hw'.1 hw'.2
      · rw [safe_bind]
        refine (safe_captured_chain (MiddlewareChain.within_applyArrowStages _ _) hw'.1
          hw'.2).mono (fun result _ _ h => ?_) fun _ _ _ h => .inl h.2.1
        exact hfinalize _ _ _ (harrow ▸ finalizesSafely_arrowBatch c hpolicy batch result)
          h.2.1 h.2.2
    · rename_i harrow
      unfold ExecutionCoordinator.runListBatch
      rw [safe_bind]
      refine safe_incConsumed fun _ w₁ _ htrace => ?_
      rw [← htrace] at hw'
      rw [safe_bind]
      refine (safe_captured_chain (MiddlewareChain.within_chain_processBatch _ _) hw'.1
        hw'.2).mono (fun result _ _ h => ?_) fun _ _ _ h => .inl h.2.1
      rw [Bool.not_eq_true] at harrow
      exact hfinalize _ _ _ (harrow ▸ finalizesSafely_listBatch c batch result) h.2.1 h.2.2

end Lanes

/-! ## The pipelined lane -/

section Pipelined

variable {v : PipelinedVariant α χ ρ} {batches done : List (SourceBatch α χ)} {arrow : Bool}
  {batch : SourceBatch α χ}

/-- Resolving a batch; after an exception the lane ends. -/
theorem safe_resolveTaken_captured (hv : v.Framed)
    (hsafe : ∀ batch result, FinalizesSafely arrow batch (v.finalize batch result))
    (streaming : Bool) (task : BatchTask) {later : List (SourceBatch α χ)}
    (hbatches : batches = done ++ batch :: later) {w₀ w : RunWorld (PipelineState α χ) α χ}
    (hw : AllCaptured w.trace) (hdone : finalized w.trace = done) :
    (v.resolveTaken streaming task batch).Safe (failureContract _ arrow)
      (fun _ _ w' => w'.state.lane = w.state.lane ∧ AllCaptured w'.trace ∧
        finalized w'.trace = done ++ [batch])
      (fun e _ w' => w'.state.lane = w.state.lane ∧ Stopped batches w'.trace ∧
        FinalizeFailure.Ends ⟨e, streaming, w.state.lane.pendingBatches.length⟩) w₀ w := by
  have hresolve : (v.resolve task batch).Safe (failureContract _ arrow)
      (fun _ _ w' => w'.state.queue = w.state.queue ∧ AllCaptured w'.trace ∧
        finalized w'.trace = done ++ [batch])
      (fun _ _ w' => w'.state.queue = w.state.queue ∧
        (AllCaptured w'.trace ∨ Failed done batch w'.trace)) w₀ w := by
    unfold PipelinedVariant.resolve
    rw [safe_bind]
    refine (safe_captured_chain (hv.collect task) hw hdone).mono (fun result w₁ w' hw' => ?_)
      fun _ _ _ h => ⟨h.1, .inl h.2.1⟩
    obtain ⟨hqueue, hcaptured, hdone'⟩ := hw'
    rw [← hdone']
    exact (hsafe batch result w₁ w' hcaptured).mono (fun _ _ _ h => ⟨h.1.trans hqueue, h.2⟩)
      fun _ _ _ h => ⟨h.1.trans hqueue, .inr h.2⟩
  unfold PipelinedVariant.resolveTaken
  rw [safe_bind, safe_attempt]
  refine hresolve.mono (fun _ _ w' hw' => ⟨lane_eq_of_queue hw'.1, hw'.2⟩) fun e w₁ w' hw' => ?_
  have hlane := lane_eq_of_queue hw'.1
  dsimp only
  rw [safe_bind, safe_read, safe_bind, safe_note, hlane]
  refine fun hassume => ⟨trivial, hlane, ?_, hassume.2.2 _ _ _ rfl⟩
  rcases hw'.2 with hcaptured | hfailed
  · exact .inl (hcaptured.snoc rfl)
  · exact (hfailed.snoc rfl rfl rfl).stopped hbatches

/-- Submitting a batch, or finalizing it when no batch is pending. -/
theorem safe_submit_captured (hv : v.Framed)
    (hsafe : ∀ batch result, FinalizesSafely arrow batch (v.finalize batch result))
    {consumed rest pending : List (SourceBatch α χ)} (hbatches : batches = consumed ++ batch :: rest)
    {w₀ w : RunWorld (PipelineState α χ) α χ} (hpending : w.state.lane.batches = pending)
    (hw : AllCaptured w.trace) (hconsumed : finalized w.trace ++ pending = consumed) :
    (v.submit batch).Safe (failureContract _ arrow)
      (fun r _ w' => w'.state.lane = w.state.lane ∧ AllCaptured w'.trace ∧
        finalized w'.trace ++ (pending ++ (r.map fun _ => batch).toList) = consumed ++ [batch])
      (fun _ _ w' => w'.state.lane = w.state.lane ∧
        ((AllCaptured w'.trace ∧ finalized w'.trace ++ pending = consumed) ∨
          (pending = [] ∧ Stopped batches w'.trace))) w₀ w := by
  unfold PipelinedVariant.submit
  rw [safe_bind]
  refine (safe_captured_chain (hv.enter batch) hw rfl).mono
    (fun entered w₁ w' hw' => ?_) fun _ _ _ h => ⟨lane_eq_of_queue h.1, .inl ⟨h.2.1, ?_⟩⟩
  · obtain ⟨hqueue, hcaptured, hdone⟩ := hw'
    have hlane := lane_eq_of_queue hqueue
    cases entered with
    | inr task =>
      refine ⟨hlane, hcaptured, ?_⟩
      rw [hdone, ← List.append_assoc, hconsumed]
      rfl
    | inl result =>
      unfold PipelinedVariant.finalizeBypassed
      rw [safe_bind, safe_bind, safe_read, safe_bind, safe_note]
      refine fun hassume => ⟨trivial, ?_⟩
      -- nothing is pending, so the batch is the next one of the stream
      have hnil : pending = [] := by
        rw [← hpending, PipelineState.batches_eq_nil, ← hlane]
        exact List.length_eq_zero_iff.mp (hassume.2.1 _ rfl)
      subst hnil
      rw [List.append_nil] at hconsumed
      have hdone' : finalized (w'.mark (.bypassed w'.state.lane.pendingBatches.length)).trace =
          consumed := by
        rw [World.mark_trace, finalized_mark_of_ne (fun _ h => by cases h), hdone, hconsumed]
      refine (hsafe batch result w₁ _ (hcaptured.snoc rfl)).mono (fun _ _ w'' hw'' => ?_)
        fun _ _ w'' hw'' => ?_
      · rw [hdone'] at hw''
        refine ⟨(lane_eq_of_queue hw''.1).trans hlane, hw''.2.1, ?_⟩
        rw [hw''.2.2, List.nil_append]
        exact List.append_nil _
      · rw [hdone'] at hw''
        exact ⟨(lane_eq_of_queue hw''.1).trans hlane, .inr ⟨rfl, hw''.2.stopped hbatches⟩⟩
  · rw [h.2.2, hconsumed]

/-- Nothing has failed and the batches are finalized in source order, until an exception leaves the
streaming loop; the pending batches are then drained only if no failure was left uncaptured. -/
def failureRule (hv : v.Framed)
    (hsafe : ∀ batch result, FinalizesSafely arrow batch (v.finalize batch result))
    (batches : List (SourceBatch α χ)) :
    PipelineRule v (CapturesOrRaises arrow) (fun _ _ => True) False batches where
  streaming consumed pending t :=
    AllCaptured t ∧ finalized t ++ pending = consumed ∧ consumed <+: batches
  draining failed pending t := (AllCaptured t ∧ finalized t ++ pending <+: batches) ∨
    (failed = true ∧ pending = [] ∧ Stopped batches t)
  raised _ t := Stopped batches t
  draining_of_streaming h := .inl ⟨h.1, by rw [h.2.1]; exact h.2.2⟩
  raised_of_draining h := h.elim (fun h => .inl h.1) fun h => h.2.2
  ensure_laneCall _ _ := trivial
  streaming_laneCall _ _ h := by
    refine ⟨h.1.snoc rfl, ?_, h.2.2⟩
    rw [finalized_append]
    simpa [finalized] using h.2.1
  draining_laneCall ho _ h := by
    refine h.imp (fun h => ⟨h.1.snoc rfl, ?_⟩) fun h => ⟨h.1, h.2.1, h.2.2.snoc_lane ho⟩
    rw [finalized_append]
    simpa [finalized] using h.2
  raised_laneCall ho _ h := h.snoc_lane ho
  raised_cancel ha _ h := h.snoc_lane (Await.isLane_of_isCancel ha)
  submit {consumed batch rest pending w₀ w} hbatches h hpending := by
    refine (safe_submit_captured hv hsafe hbatches hpending h.1 h.2.1).mono
      (fun r _ w' hw' => ?_) fun _ _ w' hw' => ⟨hw'.1, ?_⟩
    · refine ⟨hw'.1, hw'.2.1, hw'.2.2, ⟨rest, ?_⟩⟩
      rw [hbatches, List.append_assoc]
      rfl
    · refine hw'.2.imp (fun h' => ⟨h'.1, ?_⟩) fun h' => ⟨rfl, h'⟩
      rw [h'.2]
      exact h.2.2
  resolve_streaming consumed task batch pending w₀ w h hpending := by
    obtain ⟨hcaptured, hconsumed, rest, hbatches⟩ := h
    rw [← hconsumed, List.append_assoc] at hbatches
    refine (safe_resolveTaken_captured hv hsafe true task hbatches.symm hcaptured rfl).mono
      (fun _ _ w' hw' => ?_) fun e _ w' hw' => ⟨hw'.1, hw'.2.1, fun habort hnil => ?_⟩
    · refine ⟨hw'.1, hw'.2.1, ?_, ⟨rest, ?_⟩⟩
      · rw [hw'.2.2, List.append_assoc]
        exact hconsumed
      · rw [← hconsumed, List.append_assoc]
        exact hbatches
    · rcases hw'.2.2 rfl with habort' | hempty
      · rw [habort] at habort'
        cases habort'
      · refine absurd ?_ hnil
        rw [← hpending, PipelineState.batches_eq_nil]
        exact List.length_eq_zero_iff.mp hempty
  resolve_draining failed task batch pending w₀ w h _ := by
    rcases h with ⟨hcaptured, rest, hbatches⟩ | ⟨-, hnil, -⟩
    · rw [List.append_assoc] at hbatches
      refine (safe_resolveTaken_captured hv hsafe false task hbatches.symm hcaptured rfl).mono
        (fun _ _ w' hw' => ⟨hw'.1, .inl ⟨hw'.2.1, rest, ?_⟩⟩) fun e _ w' hw' => ⟨hw'.1, hw'.2.1⟩
      rw [hw'.2.2, List.append_assoc, List.append_assoc]
      exact hbatches
    · cases hnil

variable [DecidableEq α] [DecidableEq χ] (c : ExecutionCoordinator α χ)

/-- The pipelined lane stops at a failure that was not captured. -/
theorem safe_runPipelinedBatches_failure (fuel : ℕ) (stage : PipelinedStage)
    (batches : List (SourceBatch α χ)) (hfuel : batches.length < fuel)
    (hpolicy : c.delivery.sinkFailurePolicy = .failClosed)
    {w₀ w : RunWorld (PipelineState α χ) α χ} (hlane : w.state.lane = .empty)
    (hw : w.trace = []) :
    (c.runPipelinedBatches fuel stage batches).Safe
      (failureContract _ (stage.middleware.kind = .arrowProcessBatch))
      (fun _ _ w' => AllCaptured w'.trace) (fun _ _ w' => Stopped batches w'.trace) w₀ w := by
  have hlimit : 0 < c.stageLimit stage := le_max_left 1 _
  have hcaptured : AllCaptured w.trace := by
    rw [hw]
    exact allCaptured_nil
  have hstart : AllCaptured w.trace ∧ finalized w.trace ++ [] = [] ∧ [] <+: batches := by
    refine ⟨hcaptured, ?_, List.nil_prefix⟩
    rw [hw]
    rfl
  unfold ExecutionCoordinator.runPipelinedBatches
  split
  · rename_i hkind
    rw [decide_eq_true hkind]
    split
    · exact .inl hcaptured
    · rw [safe_bind]
      exact ((failureRule (framed_arrowVariant c stage) (finalizesSafely_arrowBatch c hpolicy)
        batches).safe_runPipelined hlimit (.inr hfuel) hlane hstart).mono
        (fun _ _ _ h => h.elim (fun h => h.1) fun h => by cases h.1) fun _ _ _ h => h
  · rename_i hkind
    rw [decide_eq_false hkind, safe_bind]
    exact ((failureRule (framed_listVariant c stage) (finalizesSafely_listBatch c)
      batches).safe_runPipelined hlimit (.inr hfuel) hlane hstart).mono
      (fun _ _ _ h => h.elim (fun h => h.1) fun h => by cases h.1) fun _ _ _ h => h

end Pipelined

/-! ## The batch lane -/

/-- The lane delivers its batches on the Arrow path. -/
def ExecutionCoordinator.arrowPath (c : ExecutionCoordinator α χ) : Bool :=
  match c.chain.firstPipelinedBatchStage with
  | some stage => decide (stage.middleware.kind = .arrowProcessBatch)
  | none => c.arrowChain

/-- Where a failure at the stage was not captured, not all are. -/
theorem not_allCaptured_of_uncaptured {t : RunTrace α χ}
    (h : uncapturedAt "batch_middleware" t ≠ []) : ¬ AllCaptured t := by
  intro hall
  obtain ⟨raised, hraised⟩ := List.exists_mem_of_ne_nil _ h
  obtain ⟨m, hm, hmark⟩ := (mem_marked _).mp hraised
  have hcaptured := hall _ hm
  cases m with
  | uncaptured stage raised' =>
    have hstage : stage ≠ "batch_middleware" := by simpa [isUncaptured] using hcaptured
    simp [hstage] at hmark
  | _ => cases hmark

section Main

variable [DecidableEq α] [DecidableEq χ] (c : ExecutionCoordinator α χ)

/-- The batch lane stops at a failure of a batch middleware that was not captured. -/
theorem safe_runBatchLane (fuel : ℕ) (batches : List (SourceBatch α χ))
    (hfuel : batches.length < fuel) (hpolicy : c.delivery.sinkFailurePolicy = .failClosed)
    (w₀ w : RunWorld (PipelineState α χ) α χ) (hlane : w.state.lane = .empty) (hw : w.trace = []) :
    (c.runBatchLane fuel batches).Safe (failureContract _ c.arrowPath)
      (fun _ _ w' => AllCaptured w'.trace) (fun _ _ w' => Stopped batches w'.trace) w₀ w := by
  unfold ExecutionCoordinator.runBatchLane ExecutionCoordinator.arrowPath
  cases c.chain.firstPipelinedBatchStage with
  | some stage => exact safe_runPipelinedBatches_failure c fuel stage batches hfuel hpolicy hlane hw
  | none => exact safe_runSequentialBatches c hpolicy batches hw

/-- If every uncaptured failure on the list path raises, no batch bypasses pending ones and the
pipelined lane ends after a failed batch, then a run in which some record of a failed batch was not
captured raises.  The failed batch is the last one finalized, the batches before it in the stream are
those finalized before, and no checkpoint is saved any more once it has begun to be finalized. -/
theorem runBatchLane_stops (fuel : ℕ) (batches : List (SourceBatch α χ))
    (hfuel : batches.length < fuel) (hpolicy : c.delivery.sinkFailurePolicy = .failClosed)
    (h : Environment α χ) (lastSaved : Option χ) {r : Outcome Exc Unit}
    {w : RunWorld (PipelineState α χ) α χ}
    (hrun : runFrom h .empty lastSaved (c.runBatchLane fuel batches) = (r, w))
    (hraises : c.arrowPath = false → ∀ raised ∈ uncapturedAt "batch_middleware" w.trace, raised = true)
    (hbypass : ∀ pending ∈ bypassed w.trace, pending = 0)
    (hends : ∀ f ∈ finalizeFailures w.trace, f.Ends) (hfailed : uncapturedAt "batch_middleware" w.trace ≠ []) :
    (∃ exc, r = .raised exc) ∧ ∃ earlier batch later before since,
      batches = earlier ++ batch :: later ∧
      w.trace = before ++ .mark (.finalizing batch) :: since ∧
      finalized before = earlier ∧ ∀ e ∈ since, finalized [e] = [] ∧ isSaveEvent e = false := by
  obtain ⟨t, ht, hpost⟩ := (safe_runBatchLane c fuel batches hfuel hpolicy
    ⟨RunState.initial .empty lastSaved, []⟩ ⟨RunState.initial .empty lastSaved, []⟩ rfl rfl).run_alone h
  unfold runFrom at hrun
  rw [hrun] at ht hpost
  rw [List.nil_append] at ht
  subst ht
  have hmem : ∀ t₁ m t₂, w.trace = t₁ ++ .mark m :: t₂ → .mark m ∈ w.trace := fun t₁ m t₂ ht => by
    rw [ht]
    simp
  have hassume : Along (CapturesOrRaises c.arrowPath) [] w.trace := by
    refine along_iff.mpr fun t₁ e t₂ ht => ⟨fun harrow he => ?_, fun pending he => ?_,
      fun exc streaming pending he => ?_⟩
    all_goals subst he
    · exact Bool.noConfusion (hraises harrow false ((mem_marked _).mpr ⟨_, hmem _ _ _ ht, rfl⟩))
    · exact hbypass pending ((mem_marked _).mpr ⟨_, hmem _ _ _ ht, rfl⟩)
    · exact hends _ ((mem_marked _).mpr ⟨_, hmem _ _ _ ht, rfl⟩)
  obtain ⟨-, hend⟩ := hpost hassume
  have hnot := not_allCaptured_of_uncaptured hfailed
  cases r with
  | returned u => exact hend.elim fun _ h => absurd h hnot
  | hung => exact hend.elim
  | raised exc =>
    obtain ⟨-, hstopped⟩ := hend
    obtain ⟨earlier, batch, later, hbatches, before, since, ht, hdone, -, hsince⟩ :=
      hstopped.resolve_left hnot
    refine ⟨⟨exc, rfl⟩, earlier, batch, later, before, since, hbatches, ht, hdone, fun e he => ?_⟩
    obtain ⟨hfinalized, hsave, -⟩ := hsince e he
    exact ⟨hfinalized, Bool.eq_false_iff.mpr fun hs => Bool.noConfusion (hsave hs)⟩

end Main

/-! ## A dead-letter sink that fails -/

/-- The middleware fails on the first batch, and the dead-letter sink fails too. -/
def failingDlq : Environment ℕ ℕ
  | _, .await (.processBatch 0 [some 1]) => .error (.runtimeError "cannot parse batch")
  | _, .await (.dlqWrite _) => .error (.runtimeError "dead-letter sink is full")
  | t, o => undisturbed t o

/-- The two batches through a batch middleware, with a dead-letter sink and the given policy for its
failures. -/
def parsedRun (policy : DLQFailurePolicy) : Outcome Exc Unit × RunWorld (PipelineState ℕ ℕ) ℕ ℕ :=
  runFrom failingDlq .empty none
    ((ExecutionCoordinator.standard { DeliveryEngine.standard true with dlqFailurePolicy := policy }
      [⟨"parse", .batch, 1⟩]).runBatchLane 3 twoBatches)

/-- When the failures of the dead-letter sink raise, the run stops at the first batch. -/
theorem runBatchLane_stops_raise :
    (∃ exc, (parsedRun .raise).1 = .raised exc) ∧ ∃ earlier batch later before since,
      twoBatches = earlier ++ batch :: later ∧
      (parsedRun .raise).2.trace = before ++ .mark (.finalizing batch) :: since ∧
      finalized before = earlier ∧ ∀ e ∈ since, finalized [e] = [] ∧ isSaveEvent e = false :=
  runBatchLane_stops _ 3 twoBatches (by decide) rfl failingDlq none rfl (by decide) (by decide)
    (by decide) (by decide)

/-- When they are only logged, the run goes on and saves the checkpoint of the second batch. -/
theorem runBatchLane_passes_logOnly :
    uncapturedAt "batch_middleware" (parsedRun .logOnly).2.trace = [false] ∧
      (parsedRun .logOnly).1 = .returned () ∧
      (parsedRun .logOnly).2.state.checkpointState.lastSavedValue = some 20 :=
  ⟨by decide, rfl, by decide⟩

end AgoraEtl
