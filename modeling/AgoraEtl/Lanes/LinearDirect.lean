import AgoraEtl.Lanes.LinearRuns

/-!
# The linear lane with unbatched writes

With the default batch size of one every record is written before the next one is taken.  Nothing waits
then: each accepted record is settled when the lane goes on, so that a dropped record finds the records
before it settled, every checkpoint covers handled records, and a lane that returns has handled all
records of the source.
-/

namespace AgoraEtl

open Effect Program

variable {ℓ α χ β : Type}

namespace DeliveryEngine

variable {d : DeliveryEngine α χ} {t t' : RunTrace α χ} {before done : List (SourceRecord α χ)}
  {r : SourceRecord α χ}

/-- A record whose predecessors are accounted for is covered once it is settled. -/
theorem covered_of_settled (hconsumed : consumedRecords t = before ++ [r])
    (hbefore : ∀ r' ∈ before, d.Accounts t r'.checkpoint) (ht : t <+: t')
    (hsettled : IsSettled t' r.checkpoint) {value : χ} (hvalue : r.checkpoint = some value) :
    d.Covered t' value := by
  obtain ⟨after, hafter⟩ := prefix_consumedRecords ht
  refine ⟨before, r, after, ?_, hvalue, fun r' hr' => ?_⟩
  · rw [← hafter, hconsumed, List.append_assoc, List.singleton_append]
  · rcases List.mem_append.mp hr' with hr' | hr'
    · exact (hbefore r' hr').mono ht
    · rw [List.mem_singleton.mp hr']
      exact accounts_of_settled hsettled

/-- Where nothing waits, the known records are accounted for. -/
theorem Outstanding.accounts (h : d.Outstanding t []) (hknown : d.Known t done) :
    ∀ r ∈ done, d.Accounts t r.checkpoint := fun r hr =>
  (hknown r hr).elim id fun hmem =>
    accounts_of_settled ((h.accepted _ hmem).resolve_right List.not_mem_nil)

/-- Where nothing waits, the accepted records are settled. -/
theorem Outstanding.allSettled (h : d.Outstanding t []) : AllSettled t (acceptedCheckpoints t) :=
  fun c hc => (h.accepted c hc).resolve_right List.not_mem_nil

/-! ## One record -/

theorem eq_grows (w w' : RunWorld ℓ α χ) (h : w = w') : w.trace <+: w'.trace := h ▸ List.prefix_rfl

theorem eq_advances (w w' : RunWorld ℓ α χ) (h : w = w') : Advances w.trace w'.trace := h ▸ .refl _

section Record

variable [DecidableEq α] [DecidableEq χ]
  {assume : RunTrace α χ → Event (Call α χ) Call.Ret (Mark α χ) → Prop} {w₀ w : RunWorld ℓ α χ}

/-- The contract of the delivery of one record, which runs alone. -/
abbrev recordContract (d : DeliveryEngine α χ)
    (assume : RunTrace α χ → Event (Call α χ) Call.Ret (Mark α χ) → Prop) :
    Contract (Call α χ) Call.Ret (Mark α χ) (RunState ℓ α χ) := d.watching assume Eq

omit [DecidableEq α] in
/-- A checkpoint that covers handled records may be saved. -/
theorem safe_saveCheckpoint_watching {checkpoint : Option χ}
    (hcovers : ∀ value, checkpoint = some value → d.Covered w.trace value) :
    (d.saveCheckpoint checkpoint : Delivery ℓ α χ Unit).Safe (d.recordContract assume)
      (fun _ _ w' => w.trace <+: w'.trace) (fun _ _ _ => True) w₀ w := by
  unfold saveCheckpoint prepareCheckpoint
  rw [safe_bind]
  split
  · rename_i value _
    unfold countProcessed
    rw [safe_bind]
    refine safe_modify_of fun w₁ _ htrace => ?_
    have hvalue := hcovers value rfl
    rw [← htrace] at hvalue ⊢
    rw [safe_bind, safe_read]
    split
    · exact safe_persistCheckpoint_watching eq_grows hvalue 1
    · exact List.prefix_rfl
  · exact List.prefix_rfl

omit [DecidableEq α] in
/-- An outcome is committed: the record is settled, or the run stops. -/
theorem safe_commitOutcome_watching {checkpoint : Option χ} {o : CommitOutcome χ}
    (ho : d.Resolution w.trace checkpoint o)
    (hcovers : IsSettled w.trace checkpoint → ∀ value, checkpoint = some value →
      d.Covered w.trace value) :
    (d.commitOutcome o : Delivery ℓ α χ Unit).Safe (d.recordContract assume)
      (fun _ _ w' => w.trace <+: w'.trace ∧ IsSettled w'.trace checkpoint) (fun _ _ _ => True)
      w₀ w := by
  have hcommit : ∀ hooks : List Hook, IsSettled w.trace checkpoint →
      (d.commitCheckpointed checkpoint hooks : Delivery ℓ α χ Unit).Safe (d.recordContract assume)
        (fun _ _ w' => w.trace <+: w'.trace ∧ IsSettled w'.trace checkpoint) (fun _ _ _ => True)
        w₀ w := by
    intro hooks hsettled
    unfold commitCheckpointed
    rw [safe_bind]
    refine (safe_saveCheckpoint_watching (hcovers hsettled)).mono (fun _ _ w₁ hw₁ => ?_)
      fun _ _ _ he => he
    exact (safe_watching_grows eq_grows (within_runHooks (M := fun _ => False) _)).mono
      (fun _ _ _ hw₂ => ⟨hw₁.trans hw₂, hsettled.mono (hw₁.trans hw₂)⟩) fun _ _ _ _ => trivial
  cases o with
  | erroredUnrouted exc =>
    have hpolicy : d.sinkFailurePolicy = .failClosed := ho
    unfold commitOutcome
    dsimp only
    rw [if_pos hpolicy]
    trivial
  | written c hooks =>
    obtain ⟨rfl, hsettled⟩ := ho
    exact hcommit hooks hsettled
  | dropped c hooks =>
    obtain ⟨rfl, hsettled⟩ := ho
    exact hcommit hooks hsettled
  | erroredRouted c hooks =>
    obtain ⟨rfl, hsettled⟩ := ho
    exact hcommit hooks hsettled

/-- The handler for an exception of the writer settles the record, or stops the run. -/
theorem safe_writeFailed_watching (exc : Exc) (result rawRecord : α) {checkpoint : Option χ}
    (onSuccess : List Hook)
    (hcovers : ∀ t, w.trace <+: t → IsSettled t checkpoint → ∀ value, checkpoint = some value →
      d.Covered t value) :
    (d.writeFailed exc result rawRecord checkpoint onSuccess : Delivery ℓ α χ Unit).Safe
      (d.recordContract assume)
      (fun _ _ w' => w.trace <+: w'.trace ∧ IsSettled w'.trace checkpoint) (fun _ _ _ => True)
      w₀ w := by
  unfold writeFailed
  rw [safe_bind]
  have hroute : (d.writeToDlq "sink_write" exc rawRecord (some result) checkpoint none :
      Delivery ℓ α χ Bool).Within (resolveFrame ℓ Mark.IsDelivery) :=
    d.within_writeToDlq (fun _ => trivial) _ _ _ _ _
  refine (safe_watching_grows eq_grows hroute).mono (fun routed _ w₁ hw₁ => ?_) fun _ _ _ _ => trivial
  rw [safe_bind]
  refine safe_count fun w₂ _ htrace₂ => ?_
  rw [← htrace₂] at hw₁
  have hdiscard : (discardSuccessHooks [rawRecord, result] : Delivery ℓ α χ Unit).Within
      (resolveFrame ℓ fun _ => False) := within_discardSuccessHooks _
  split
  · rw [safe_bind, safe_note]
    refine fun _ => ⟨savesCovered_mark _ _, ?_⟩
    have hsettled : IsSettled (w₂.mark (.settled checkpoint (failureHandling routed))).trace
        checkpoint := isSettled_mark _ _ _
    have hmarked : w.trace <+: (w₂.mark (.settled checkpoint (failureHandling routed))).trace :=
      hw₁.trans (List.prefix_append _ _)
    rw [safe_bind]
    refine (safe_saveCheckpoint_watching (hcovers _ hmarked hsettled)).mono (fun _ _ w₃ hw₃ => ?_)
      fun _ _ _ he => he
    have hdone : ∀ {w₄ : RunWorld ℓ α χ}, w₃.trace <+: w₄.trace →
        w.trace <+: w₄.trace ∧ IsSettled w₄.trace checkpoint := fun hw₄ =>
      ⟨(hmarked.trans hw₃).trans hw₄, hsettled.mono (hw₃.trans hw₄)⟩
    split
    · rw [safe_bind]
      refine (safe_watching_grows eq_grows (within_successHookFor (M := fun _ => False) _ _ _)).mono
        (fun hooks _ w₄ hw₄ => ?_) fun _ _ _ _ => trivial
      exact (safe_watching_grows eq_grows (within_runHooks (M := fun _ => False) _)).mono
        (fun _ _ _ hw₅ => hdone (hw₄.trans hw₅)) fun _ _ _ _ => trivial
    · exact (safe_watching_grows eq_grows hdiscard).mono (fun _ _ _ hw₄ => hdone hw₄)
        fun _ _ _ _ => trivial
  · rw [safe_bind]
    exact (safe_watching_grows eq_grows hdiscard).mono (fun _ _ _ _ => trivial) fun _ _ _ _ => trivial

/-- A record that the chain passes on is written and settled before the lane goes on. -/
theorem safe_writeProcessedRecord_watching (value : α) (failure : Option (MiddlewareFailure α))
    (hconsumed : consumedRecords w.trace = before ++ [r])
    (hbefore : ∀ r' ∈ before, d.Accounts w.trace r'.checkpoint) :
    (d.writeProcessedRecord (some value) r.raw r.checkpoint failure r.onSuccess :
      Delivery ℓ α χ Unit).Safe (d.recordContract assume)
      (fun _ _ w' => w.trace <+: w'.trace ∧ IsSettled w'.trace r.checkpoint) (fun _ _ _ => True)
      w₀ w := by
  have hcovers : ∀ {t₁ t}, w.trace <+: t₁ → t₁ <+: t → IsSettled t r.checkpoint →
      ∀ v, r.checkpoint = some v → d.Covered t v := fun ht₁ ht hsettled _ hvalue =>
    covered_of_settled hconsumed hbefore (ht₁.trans ht) hsettled hvalue
  unfold writeProcessedRecord catchSinkException
  rw [safe_bind, safe_catchException, safe_bind]
  have hwrite : (d.writeOne value : Delivery ℓ α χ WriteResult).Within (resolveFrame ℓ fun _ => False) :=
    d.within_writeOne _
  refine (safe_watching_grows eq_grows hwrite).mono (fun writeResult _ w₁ hw₁ => ?_)
    fun exc _ w₁ hw₁ => ?_
  · refine (safe_ret _).mpr ?_
    dsimp only
    unfold resolveRecord
    rw [safe_bind, safe_bind]
    refine (safe_watching_grows eq_grows (within_successHookFor (M := fun _ => False) _ _ _)).mono
      (fun hooks _ w₂ hw₂ => ?_) fun _ _ _ _ => trivial
    refine (safe_resolveWriteResult_watching eq_grows writeResult r.raw value r.checkpoint
      hooks).mono (fun o _ w₃ hw₃ => ?_) fun _ _ _ he => he
    have hgrows := (hw₁.trans hw₂).trans hw₃.1
    exact (safe_commitOutcome_watching hw₃.2 (hcovers hgrows List.prefix_rfl)).mono
      (fun _ _ _ hw₄ => ⟨hgrows.trans hw₄.1, hw₄.2⟩) fun _ _ _ he => he
  · split
    · split
      · trivial
      · rw [safe_bind]
        refine (safe_writeFailed_watching exc value r.raw r.onSuccess fun t ht => hcovers hw₁ ht).mono
          (fun _ _ w₂ hw₂ => ⟨hw₁.trans hw₂.1, hw₂.2⟩) fun _ _ _ he => he
    · trivial

/-- A dropped record finds the accepted records settled, where nothing waits. -/
theorem safe_dropRecord_direct (hnothing : AllSettled w.trace (acceptedCheckpoints w.trace))
    (hconsumed : consumedRecords w.trace = before ++ [r])
    (hbefore : ∀ r' ∈ before, d.Accounts w.trace r'.checkpoint)
    (failure : Option (MiddlewareFailure α)) (onSuccess : List Hook) (hookRecord : Option α) :
    (d.dropRecord r.checkpoint failure onSuccess hookRecord : Delivery ℓ α χ Unit).Safe
      (d.recordContract fun _ _ => True) (fun _ _ w' => d.Accounts w'.trace r.checkpoint)
      (fun _ _ _ => True) w₀ w := by
  have hfinds : ∀ {t : RunTrace α χ} (e : Event (Call α χ) Call.Ret (Mark α χ)),
      AllSettled t (acceptedCheckpoints t) → FindsSettled t e := fun _ ht _ => ht
  have hgoes : ∀ {t t' : RunTrace α χ}, Advances t t' → AllSettled t (acceptedCheckpoints t) →
      AllSettled t' (acceptedCheckpoints t') := by
    intro t t' hadvances ht
    rw [hadvances.accepted]
    exact ht.mono hadvances.grows
  -- The delivery takes no record in, so that the accepted records stay settled at each of its steps.
  have hsettled : (d.dropRecord r.checkpoint failure onSuccess hookRecord : Delivery ℓ α χ Unit).Safe
      { d.recordContract (fun _ _ => True) with ensure := FindsSettled }
      (fun _ _ w' => AllSettled w'.trace (acceptedCheckpoints w'.trace))
      (fun _ _ w' => AllSettled w'.trace (acceptedCheckpoints w'.trace)) w₀ w := by
    refine Safe.of_within (F := deliveryFrame ℓ fun m => ¬ m.TakesIn)
      (J := fun _ w' => AllSettled w'.trace (acceptedCheckpoints w'.trace))
      (fun _ _ _ hw' _ => hw') (fun _ w' m hm hw' _ => ?_) (fun _ w' o _ hw' => ?_)
      (fun h => h.elim) (d.within_dropRecord allowsEngine_not_takesIn _ _ _ _) hnothing
    · exact ⟨hfinds _ hw', hgoes (.mark _ hm) hw'⟩
    · refine ⟨trivial, fun w₁ hr r _ _ => ?_⟩
      obtain rfl : w' = w₁ := hr
      exact ⟨hfinds _ hw', hgoes (.called _ _ _) hw'⟩
  exact Safe.cut (safe_dropRecord_watching eq_advances (fun _ ht => ht rfl) hconsumed
    (fun r' hr' => .inl (hbefore r' hr')) failure onSuccess hookRecord) hsettled

end Record

end DeliveryEngine

namespace ExecutionCoordinator

open DeliveryEngine

variable (c : ExecutionCoordinator α χ) [DecidableEq α] [DecidableEq χ]

/-- The body of the loop, where every record is written at once. -/
theorem queueRecord_direct (hbatch : c.writerBatchSize = 1) (fuel : ℕ) (record : SourceRecord α χ) :
    c.queueRecord fuel record = (do
      takeRecord record
      let outcome ← c.chain.processOutcome record.raw
      match outcome.1 with
      | none => c.delivery.dropRecord record.checkpoint outcome.2 record.onSuccess (some record.raw)
      | some value => do
        note (.accepted record)
        c.delivery.writeProcessedRecord (some value) record.raw record.checkpoint outcome.2
          record.onSuccess) := by
  have hdeliver : ∀ outcome, c.deliverRecord fuel record outcome =
      c.delivery.writeProcessedRecord outcome.1 record.raw record.checkpoint outcome.2
        record.onSuccess := fun _ => if_neg (by omega)
  unfold queueRecord
  refine congrArg (takeRecord record >>= ·) (funext fun _ => ?_)
  refine congrArg (c.chain.processOutcome record.raw >>= ·) (funext fun outcome => ?_)
  rw [hdeliver]
  obtain ⟨result, failure⟩ := outcome
  cases result with
  | none => rfl
  | some value => rfl

/-- The agreement of the lane where nothing waits. -/
abbrev unqueued : Supervised (List (PendingWrite α χ)) α χ :=
  c.delivery.alone (fun _ => []) fun q => q.pendingWrites = []

variable {w₀ w : RunWorld (List (PendingWrite α χ)) α χ} {done records : List (SourceRecord α χ)}
  {r : SourceRecord α χ}

omit [DecidableEq α] [DecidableEq χ] in
/-- Once the record taken last is settled or dropped, the lane is between two records again. -/
theorem between_unqueued {w' : RunWorld (List (PendingWrite α χ)) α χ}
    (hw : c.unqueued.Taken c.delivery done r w) (hqueue : w'.state.queue = w.state.queue)
    (hconsumed : consumedRecords w'.trace = done ++ [r]) (hgrows : w.trace <+: w'.trace)
    (haccepted : AllSettled w'.trace (acceptedCheckpoints w'.trace))
    (hr : c.delivery.Accounts w'.trace r.checkpoint) :
    c.unqueued.BetweenRecords c.delivery (done ++ [r]) w' where
  fed := ⟨hqueue ▸ hw.fed.1, awaits_nil _, fun p hp => .inl (haccepted p hp)⟩
  consumed := hconsumed
  known := by
    refine Known.concat (fun r' hr' => ?_) (.inl hr)
    exact .inl ((hw.fed.2.accounts hw.known r' hr').mono hgrows)

/-- A record that the chain passes on is written at once. -/
theorem safe_acceptWritten (value : α) (failure : Option (MiddlewareFailure α))
    (hw : c.unqueued.Taken c.delivery done r w) :
    (do
      note (.accepted r)
      c.delivery.writeProcessedRecord (some value) r.raw r.checkpoint failure r.onSuccess :
      LinearDelivery α χ Unit).Safe (c.delivery.aloneContract fun _ _ => True)
      (fun _ w₀ w' => c.unqueued.guarantee w₀ w' ∧
        c.unqueued.BetweenRecords c.delivery (done ++ [r]) w')
      (fun _ w₀ w' => c.unqueued.guarantee w₀ w' ∧ c.unqueued.left w') w₀ w := by
  rw [safe_bind, safe_note]
  refine fun _ => ⟨savesCovered_mark _ _, ?_⟩
  have hgrows : w.trace <+: (w.mark (.accepted r)).trace := List.prefix_append _ _
  have hconsumed : consumedRecords (w.mark (.accepted r)).trace = done ++ [r] :=
    (consumedRecords_accepted _ _).trans hw.consumed
  have hdone : ∀ r' ∈ done, c.delivery.Accounts (w.mark (.accepted r)).trace r'.checkpoint :=
    fun r' hr' => (hw.fed.2.accounts hw.known r' hr').mono hgrows
  refine (safe_engine_alone (w := w.mark (.accepted r)) hw.fed.1.1
    (c.delivery.within_writeProcessedRecord allowsEngine_not_takesIn _ _ _ _ _)
    (safe_writeProcessedRecord_watching value failure hconsumed hdone)).mono
    (fun _ _ w' hw' => ?_) fun _ _ w' hw' => ?_
  · obtain ⟨⟨-, hsettled⟩, hqueue, hadvances⟩ := hw'
    refine ⟨alone_guarantee (hqueue ▸ hw.fed.1.1), c.between_unqueued hw hqueue
      (hadvances.consumed.trans hconsumed) (hgrows.trans hadvances.grows) (fun p hp => ?_)
      (accounts_of_settled hsettled)⟩
    rw [hadvances.accepted, World.mark_trace, acceptedCheckpoints_mark] at hp
    rcases List.mem_append.mp hp with hp | hp
    · exact (hw.fed.2.allSettled p hp).mono (hgrows.trans hadvances.grows)
    · rw [List.mem_singleton.mp hp]
      exact hsettled
  · obtain ⟨-, hqueue, -⟩ := hw'
    exact ⟨alone_guarantee (hqueue ▸ hw.fed.1.1), hqueue ▸ hw.fed.1, awaits_nil _⟩

/-- One record of the source. -/
theorem safe_queueRecord_direct (hbatch : c.writerBatchSize = 1) (fuel : ℕ)
    (hw₀ : c.unqueued.guarantee w₀ w) (hw : c.unqueued.BetweenRecords c.delivery done w) :
    (c.queueRecord fuel r).Safe (c.delivery.aloneContract fun _ _ => True)
      (fun _ w₀ w' => c.unqueued.guarantee w₀ w' ∧
        c.unqueued.BetweenRecords c.delivery (done ++ [r]) w')
      (fun _ w₀ w' => c.unqueued.guarantee w₀ w' ∧ c.unqueued.left w') w₀ w := by
  rw [c.queueRecord_direct hbatch, safe_bind]
  refine (c.unqueued.safe_takeRecord hw₀ hw).mono (fun _ w₀ w₁ hw₁ => ?_) fun _ _ _ he => he
  have hchain : (c.chain.processOutcome r.raw : LinearDelivery α χ _).Within
      (resolveFrame _ fun m => ¬ m.TakesIn) :=
    within_resolve_of_chain (MiddlewareChain.within_processStages _ _ _)
  rw [safe_bind]
  refine (c.unqueued.safe_resolving (fun _ _ h => h.rely) (fun _ _ h => h.kept) hchain hw₁.1
    hw₁.2).mono (fun outcome w₀ w₂ hw₂ => ?_)
    fun _ _ _ he => ⟨he.1, c.unqueued.left_of_fed _ he.2.fed⟩
  obtain ⟨-, htaken⟩ := hw₂
  cases outcome.1 with
  | some value => exact c.safe_acceptWritten value outcome.2 htaken
  | none =>
    refine (safe_engine_alone htaken.fed.1.1
      (c.delivery.within_dropRecord allowsEngine_not_takesIn _ _ _ _)
      (safe_dropRecord_direct htaken.fed.2.allSettled htaken.consumed
        (htaken.fed.2.accounts htaken.known) outcome.2 r.onSuccess (some r.raw))).mono
      (fun _ _ w' hw' => ?_) fun _ _ w' hw' => ?_
    · obtain ⟨hr, hqueue, hadvances⟩ := hw'
      refine ⟨alone_guarantee (hqueue ▸ htaken.fed.1.1), c.between_unqueued htaken hqueue
        (hadvances.consumed.trans htaken.consumed) hadvances.grows ?_ hr⟩
      rw [hadvances.accepted]
      exact htaken.fed.2.allSettled.mono hadvances.grows
    · obtain ⟨-, hqueue, -⟩ := hw'
      exact ⟨alone_guarantee (hqueue ▸ htaken.fed.1.1), hqueue ▸ htaken.fed.1, awaits_nil _⟩

/-- The lane that writes every record at once saves only what covers handled records, and has handled
all records when it returns. -/
theorem safe_runLinearLane_direct (hbatch : c.writerBatchSize = 1) (fuel : ℕ)
    (hw : c.unqueued.BetweenRecords c.delivery [] w) :
    (c.runLinearLane fuel records).Safe (c.delivery.aloneContract fun _ _ => True)
      (fun _ w₀ w' => c.unqueued.guarantee w₀ w' ∧
        ∀ r ∈ records, c.delivery.Accounts w'.trace r.checkpoint)
      (fun _ w₀ w' => c.unqueued.guarantee w₀ w') w w := by
  unfold runLinearLane
  rw [if_neg (by simp [hbatch])]
  unfold runQueueLane catchSourceError
  rw [safe_bind, safe_catchException, safe_bind]
  -- what is left once the source has ended: nothing is pending, and its error is raised
  have hrest : ∀ (sourceError : Option Exc) {w₀ w₁ : RunWorld (List (PendingWrite α χ)) α χ},
      c.unqueued.left w₁ → (sourceError = none → c.unqueued.BetweenRecords c.delivery records w₁) →
      (do
        hotFlush
        c.delivery.flushPendingWrites
        raiseSourceError sourceError : LinearDelivery α χ Unit).Safe
        (c.delivery.aloneContract fun _ _ => True)
        (fun _ w₀ w' => c.unqueued.guarantee w₀ w' ∧
          ∀ r ∈ records, c.delivery.Accounts w'.trace r.checkpoint)
        (fun _ w₀ w' => c.unqueued.guarantee w₀ w') w₀ w₁ := by
    intro sourceError w₀ w₁ hleft hbetween
    rw [safe_bind]
    refine safe_modify_of fun w₂ hstate htrace => ?_
    have hqueue : w₂.state.queue = w₁.state.queue := (congrArg RunState.queue hstate).trans rfl
    have hnothing : w₂.state.pendingWrites = [] :=
      (congrArg QueueState.pendingWrites hqueue).trans hleft.1.2
    rw [safe_bind]
    refine (safe_flushPendingWrites_alone (hqueue ▸ hleft.1.1)
      (by rw [hnothing]; exact awaits_nil _)).mono (fun _ _ w₃ hw₃ => ?_)
      fun _ _ w₃ hw₃ => alone_guarantee hw₃.alone
    cases sourceError with
    | some exc => exact alone_guarantee hw₃.1.alone
    | none =>
      refine ⟨alone_guarantee hw₃.1.alone, fun r hr => ?_⟩
      have hw₁ := hbetween rfl
      exact (hw₁.fed.2.accounts hw₁.known r hr).mono (htrace ▸ hw₃.1.advances.grows)
  refine (safe_forEach
    (I := fun done w₀ w' => c.unqueued.guarantee w₀ w' ∧
      c.unqueued.BetweenRecords c.delivery done w')
    (E := fun _ w₀ w' => c.unqueued.guarantee w₀ w' ∧ c.unqueued.left w')
    (fun done w₀ w₁ hw₁ => ?_)
    (fun done r rest w₀ w₁ _ hw₁ => c.safe_queueRecord_direct hbatch fuel hw₁.1 hw₁.2)
    ⟨id, hw⟩).mono (fun _ w₀ w₁ hw₁ => ?_) fun exc w₀ w₁ hw₁ => ?_
  · exact (c.unqueued.safe_resolving (fun _ _ h => h.rely) (fun _ _ h => h.kept)
      (within_resolveInvoke rfl) hw₁.1 hw₁.2).mono (fun _ _ _ h => h)
      fun _ _ _ h => ⟨h.1, c.unqueued.left_of_fed _ h.2.fed⟩
  · exact hrest none (c.unqueued.left_of_fed _ hw₁.2.fed) fun _ => hw₁.2
  · split
    · exact hrest (some exc) hw₁.2 (by simp)
    · exact hw₁.1

/-! ## Runs -/

/-- In every run every saved checkpoint covers handled records, and once the lane has returned all
records are handled. -/
theorem linearRun_direct (hbatch : c.writerBatchSize = 1) (fuel : ℕ) (h : Environment α χ)
    (lastSaved : Option χ) (turns : List Turn) :
    Along c.delivery.SavesCovered [] (c.linearRun fuel records h lastSaved turns).world.trace ∧
      ((c.linearRun fuel records h lastSaved turns).main = .ended (.returned ()) →
        ∀ r ∈ records,
          c.delivery.Accounts (c.linearRun fuel records h lastSaved turns).world.trace r.checkpoint) := by
  let w : RunWorld (List (PendingWrite α χ)) α χ := ⟨RunState.initial [] lastSaved, []⟩
  let main := c.runLinearLane fuel records
  let agreement : (c.delivery.withOwner fuel main).Agreement :=
    .unspawned _ (c.delivery.aloneContract fun _ _ => True)
      (fun _ w₀ w' => c.unqueued.guarantee w₀ w' ∧
        ∀ r ∈ records, c.delivery.Accounts w'.trace r.checkpoint)
      (fun _ w₀ w' => c.unqueued.guarantee w₀ w')
      (fun _ _ _ hr => hr) rfl (fun _ _ hg => hg) (fun _ _ _ hq => hq.1) (fun _ _ _ he => he)
  have hmain : main.Safe agreement.main agreement.mainReturns agreement.mainRaises w w :=
    c.safe_runLinearLane_direct hbatch fuel ⟨⟨⟨⟨rfl, nofun⟩, rfl⟩, outstanding_nil⟩, rfl, nofun⟩
  constructor
  · obtain ⟨t, ht, hpost⟩ := System.sound_run (w := w) agreement h rfl hmain turns
    rw [List.nil_append] at ht
    change (c.linearRun fuel records h lastSaved turns).world.trace = t at ht
    rw [ht]
    exact (hpost (along_iff.mpr fun _ _ _ _ => trivial)).1
  · intro hreturned
    obtain ⟨_, w₁, hw₁, hsame⟩ := System.returned_run (A := agreement) (w := w)
      (fun _ _ => trivial) (fun _ hw => hw) h rfl hmain turns hreturned
    obtain rfl : w₁ = (c.linearRun fuel records h lastSaved turns).world := hsame
    exact hw₁.2

end ExecutionCoordinator

end AgoraEtl
