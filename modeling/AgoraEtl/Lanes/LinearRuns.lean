import AgoraEtl.Lanes.LinearOwner

/-!
# The checkpoints saved in a run of the linear lane

Every run of the linear lane saves only checkpoints of records that are handled, together with all
records before them, as long as a dropped or failed record finds the records accepted before it
settled when its checkpoint is due.  Without that condition the lane loses records: a dropped record
saves its checkpoint at once, while earlier records still wait for their batch.
-/

namespace AgoraEtl

open Effect Program

variable {ℓ α χ β : Type}

/-! ## Every record is taken in its turn -/

/-- The lane takes the records of the source in their order. -/
def TakenInOrder (records : List (SourceRecord α χ)) (t : RunTrace α χ)
    (e : Event (Call α χ) Call.Ret (Mark α χ)) : Prop :=
  ∀ record, e = .mark (.consumed record) → consumedRecords t ++ [record] <+: records

/-- The records taken along a run are the first ones of the source. -/
theorem consumedRecords_prefix {records : List (SourceRecord α χ)} {t : RunTrace α χ}
    (h : Along (TakenInOrder records) [] t) : consumedRecords t <+: records := by
  induction t using List.reverseRecOn with
  | nil => exact List.nil_prefix
  | append_singleton t e ih =>
    rw [along_append, List.nil_append] at h
    have hrest := ih h.1
    rw [consumedRecords_append]
    cases e with
    | called o r => simpa [consumedRecords] using hrest
    | mark m =>
      cases m with
      | consumed record => exact h.2.1 record rfl
      | _ => simpa [consumedRecords] using hrest

/-- The mark of a record that is taken from the source. -/
def Mark.IsConsumed : Mark α χ → Prop
  | .consumed _ => True
  | _ => False

/-- The footprint of programs that take no record from the source. -/
def takesNothing (ℓ : Type) : Footprint (Call α χ) (Mark α χ) (RunState ℓ α χ) where
  marks := fun m => ¬ m.IsConsumed
  calls := fun _ => True
  writes := fun _ _ => True
  hangs := True

/-- The engine consumes no record. -/
theorem allowsEngine_not_isConsumed : AllowsEngine fun m : Mark α χ => ¬ m.IsConsumed :=
  ⟨fun _ _ => id, fun _ _ => id, fun _ => id⟩

/-- A program within the frame of the lane takes no record. -/
theorem takesNothing_of_lane {p : Delivery ℓ α χ β}
    (hp : p.Within (laneFrame ℓ fun m => ¬ m.IsConsumed)) : p.Within (takesNothing ℓ) := by
  refine Within.mono ?_ ?_ ?_ ?_ hp
  · exact fun _ h => h
  · exact fun _ h => h
  · exact fun _ _ _ => trivial
  · exact fun h => h

/-- Nor does one within the frame of the engine. -/
theorem takesNothing_of_delivery {p : Delivery ℓ α χ β}
    (hp : p.Within (deliveryFrame ℓ fun m => ¬ m.IsConsumed)) : p.Within (takesNothing ℓ) :=
  takesNothing_of_lane (DeliveryEngine.within_lane_of_delivery hp)

/-- The mark of an accepted record takes none. -/
theorem takesNothing_accepted (record : SourceRecord α χ) :
    (note (.accepted record) : Delivery ℓ α χ Unit).Within (takesNothing ℓ) := fun _ => ⟨id, trivial⟩

/-- Other marks consume nothing. -/
theorem consumedRecords_mark (t : RunTrace α χ) {m : Mark α χ} (hm : ¬ m.IsConsumed) :
    consumedRecords (t ++ [.mark m]) = consumedRecords t := by
  cases m <;> first | exact absurd trivial hm | simp [consumedRecords]

/-- Calls consume nothing. -/
theorem consumedRecords_called (t : RunTrace α χ) (o : Call α χ) (r : o.Ret) :
    consumedRecords (t ++ [.called o r]) = consumedRecords t := by
  simp [consumedRecords]

section InOrder

variable {records : List (SourceRecord α χ)} {w₀ w : RunWorld ℓ α χ}

/-- The contract of a lane that is only observed for the order of the records it takes. -/
abbrev orderContract (ℓ : Type) (records : List (SourceRecord α χ)) :
    Contract (Call α χ) Call.Ret (Mark α χ) (RunState ℓ α χ) :=
  laneContract (fun _ _ => True) (TakenInOrder records)

/-- A program that takes no record leaves the consumed ones. -/
theorem safe_takesNothing {p : Delivery ℓ α χ β} (hp : p.Within (takesNothing ℓ)) :
    p.Safe (orderContract ℓ records)
      (fun _ _ w' => consumedRecords w'.trace = consumedRecords w.trace)
      (fun _ _ w' => consumedRecords w'.trace = consumedRecords w.trace) w₀ w := by
  refine Safe.of_within (F := takesNothing ℓ)
    (J := fun _ w' => consumedRecords w'.trace = consumedRecords w.trace)
    (fun _ _ _ hw' _ => hw') (fun _ w' m hm hw' _ => ?_) (fun _ w' o _ hw' => ?_)
    (fun _ => trivial) hp rfl
  · refine ⟨fun record he => ?_, (consumedRecords_mark _ hm).trans hw'⟩
    cases he
    exact absurd trivial hm
  · refine ⟨trivial, fun w₁ hback r _ _ => ⟨nofun, (consumedRecords_called _ _ _).trans ?_⟩⟩
    refine hback.keeps (T := fun t => consumedRecords t = consumedRecords w.trace) ?_ ?_ hw'
    · intro t m hm ht
      refine (consumedRecords_mark t ?_).trans ht
      cases m <;> first | exact id | exact hm.elim
    · exact fun t o r ht => (consumedRecords_called t o r).trans ht

/-- A lane that takes the records one after the other takes them in order. -/
theorem safe_lane_inOrder {body rest : SourceRecord α χ → Delivery ℓ α χ Unit}
    {tail : Option Exc → Delivery ℓ α χ Unit} (hbody : ∀ r, body r = do takeRecord r; rest r)
    (hrest : ∀ r, (rest r).Within (takesNothing ℓ)) (htail : ∀ e, (tail e).Within (takesNothing ℓ))
    (hw : consumedRecords w.trace = []) :
    (do
      let sourceError ← catchSourceError (forEach body records)
      tail sourceError : Delivery ℓ α χ Unit).Safe (orderContract ℓ records) (fun _ _ _ => True)
      (fun _ _ _ => True) w₀ w := by
  have htailSafe : ∀ (e : Option Exc) {w₀ w' : RunWorld ℓ α χ},
      (tail e).Safe (orderContract ℓ records) (fun _ _ _ => True) (fun _ _ _ => True) w₀ w' :=
    fun e {_ _} => (safe_takesNothing (htail e)).mono (fun _ _ _ _ => trivial) fun _ _ _ _ => trivial
  unfold catchSourceError
  rw [safe_bind, safe_catchException, safe_bind]
  refine (safe_forEach (I := fun done _ w' => consumedRecords w'.trace = done)
    (E := fun _ _ _ => True) (fun done w₀ w₁ hw₁ => ?_) (fun done r after w₀ w₁ hrecords hw₁ => ?_)
    hw).mono (fun _ _ _ _ => htailSafe none) fun exc _ _ _ => ?_
  · exact (safe_takesNothing (takesNothing_of_delivery (within_invoke _))).mono
      (fun _ _ _ h => h.trans hw₁) fun _ _ _ _ => trivial
  · rw [hbody]
    unfold takeRecord
    rw [safe_bind, safe_bind, safe_note]
    refine fun _ => ⟨fun record he => ?_, ?_⟩
    · cases he
      rw [hw₁, hrecords]
      exact ⟨after, by rw [List.append_assoc, List.singleton_append]⟩
    · have htaken : consumedRecords (w₁.mark (.consumed r)).trace = done ++ [r] := by
        rw [World.mark_trace, consumedRecords_append, hw₁]
        rfl
      rw [← safe_bind]
      refine (safe_takesNothing (within_bind ?_ fun _ => hrest r)).mono
        (fun _ _ _ h => h.trans htaken) fun _ _ _ _ => trivial
      exact within_bind (takesNothing_of_delivery (within_consume 1)) fun _ =>
        within_modify fun _ => trivial
  · split
    · exact htailSafe (some exc)
    · trivial

end InOrder

namespace ExecutionCoordinator

variable (c : ExecutionCoordinator α χ) [DecidableEq α] [DecidableEq χ]

section InOrder

/-- Queueing a record takes no other one. -/
theorem takesNothing_queueRecord (fuel : ℕ) (record : SourceRecord α χ) :
    (do
      let outcome ← c.chain.processOutcome record.raw
      if outcome.1.isSome then note (.accepted record) else pure ()
      c.deliverRecord fuel record outcome : LinearDelivery α χ Unit).Within (takesNothing _) := by
  have hdeliver : ∀ outcome : MiddlewareChain.RecordOutcome α,
      (c.deliverRecord fuel record outcome : LinearDelivery α χ Unit).Within (takesNothing _) := by
    intro outcome
    unfold deliverRecord DeliveryEngine.queueProcessedRecord
    refine within_ite ?_ (takesNothing_of_delivery
      (c.delivery.within_writeProcessedRecord allowsEngine_not_isConsumed _ _ _ _ _))
    cases outcome.1 with
    | none =>
      exact takesNothing_of_delivery
        (c.delivery.within_dropRecord allowsEngine_not_isConsumed _ _ _ _)
    | some value =>
      exact takesNothing_of_lane
        (c.delivery.within_queueSuccessRecord allowsEngine_not_isConsumed _ _ _ _ _ _)
  refine within_bind (takesNothing_of_delivery
    (within_of_chain (MiddlewareChain.within_processStages _ _ _))) fun outcome => ?_
  exact within_ite (within_bind (takesNothing_accepted record) fun _ => hdeliver outcome)
    (hdeliver outcome)

/-- Emptying the buffer takes none. -/
theorem takesNothing_emptyBuffer (fuel : ℕ) :
    (c.emptyBuffer fuel : LinearDelivery α χ Unit).Within (takesNothing _) := by
  have hqueue : ∀ batch, (c.queueBatch fuel batch : LinearDelivery α χ Unit).Within
      (takesNothing _) := by
    intro batch
    induction batch with
    | nil => exact within_ret ()
    | cons item batch ih =>
      exact within_bind (takesNothing_of_lane
        (c.delivery.within_queueSuccessRecord allowsEngine_not_isConsumed _ _ _ _ _ _)) fun _ => ih
  refine within_bind (within_bind within_read fun _ => within_bind (within_modify fun _ => trivial)
    fun _ => within_ret _) fun batch => within_ite ?_ (hqueue batch)
  exact takesNothing_of_delivery
    (c.delivery.within_flushBatchDirect allowsEngine_not_isConsumed.writes _)

/-- Buffering a record takes no other one. -/
theorem takesNothing_bufferRecord (fuel : ℕ) (record : SourceRecord α χ) :
    (do
      let outcome ← c.chain.processOutcome record.raw
      match outcome.1 with
      | none =>
        c.delivery.dropRecord record.checkpoint outcome.2 record.onSuccess (some record.raw)
      | some value => do
        note (.accepted record)
        let full ← c.pushBuffer ⟨value, record.raw, record.checkpoint, record.onSuccess⟩
        if full then c.emptyBuffer fuel else pure () : LinearDelivery α χ Unit).Within
      (takesNothing _) := by
  refine within_bind (takesNothing_of_delivery
    (within_of_chain (MiddlewareChain.within_processStages _ _ _))) fun outcome => ?_
  cases outcome.1 with
  | none =>
    exact takesNothing_of_delivery
      (c.delivery.within_dropRecord allowsEngine_not_isConsumed _ _ _ _)
  | some value =>
    refine within_bind (takesNothing_accepted record) fun _ => within_bind ?_ fun full =>
      within_ite (c.takesNothing_emptyBuffer fuel) (within_ret ())
    exact within_bind (within_modify fun _ => trivial) fun _ => within_bind within_read fun _ =>
      within_ret _

/-- The linear lane takes the records in order, whatever mode it runs in. -/
theorem safe_runLinearLane_inOrder (fuel : ℕ) (records : List (SourceRecord α χ))
    {w₀ w : RunWorld (List (PendingWrite α χ)) α χ} (hw : consumedRecords w.trace = []) :
    (c.runLinearLane fuel records).Safe (orderContract _ records) (fun _ _ _ => True)
      (fun _ _ _ => True) w₀ w := by
  have hflush : (c.delivery.flushPendingWrites : LinearDelivery α χ Unit).Within (takesNothing _) :=
    takesNothing_of_lane (c.delivery.within_flushPendingWrites allowsEngine_not_isConsumed)
  have hraise : ∀ e : Option Exc,
      (raiseSourceError e : LinearDelivery α χ Unit).Within (takesNothing _) := by
    intro e
    cases e with
    | none => exact within_ret ()
    | some exc => exact within_raise exc
  have hhot : (hotFlush : LinearDelivery α χ Unit).Within (takesNothing _) :=
    within_modify fun _ => trivial
  unfold runLinearLane
  split
  · refine safe_lane_inOrder (fun _ => rfl) (c.takesNothing_bufferRecord fuel) (fun e => ?_) hw
    refine within_bind (within_bind within_read fun s => within_ite (within_ret ()) ?_) fun _ =>
      within_bind hhot fun _ => hraise e
    exact within_bind (c.takesNothing_emptyBuffer fuel) fun _ => within_ite (within_ret ()) hflush
  · exact safe_lane_inOrder (fun _ => rfl) (c.takesNothing_queueRecord fuel)
      (fun e => within_bind hhot fun _ => within_bind hflush fun _ => hraise e) hw

end InOrder

/-! ## Runs -/

/-- A run of the linear lane beside the pending-write owner, after a schedule. -/
def linearRun (fuel : ℕ) (records : List (SourceRecord α χ)) (h : Environment α χ)
    (lastSaved : Option χ) (turns : List Turn) :
    System.Config (Call α χ) Call.Ret (Mark α χ) (RunState (List (PendingWrite α χ)) α χ) Exc Unit :=
  let system := c.delivery.withOwner fuel (c.runLinearLane fuel records)
  system.exec h (system.start ⟨RunState.initial [] lastSaved, []⟩) turns

end ExecutionCoordinator

/-- The event is the mark of a dropped or failed record whose save is due. -/
def dropsDue : Event (Call α χ) Call.Ret (Mark α χ) → Bool
  | .mark (.dropping due) => due
  | _ => false

/-- If the event is the mark of a record whose save is due, the accepted records are settled. -/
def FindsSettled (t : RunTrace α χ) (e : Event (Call α χ) Call.Ret (Mark α χ)) : Prop :=
  dropsDue e = true → AllSettled t (acceptedCheckpoints t)

/-- Whenever a save is due for a dropped or failed record, all records accepted before it are
settled. -/
def DropsSettled (t : RunTrace α χ) : Prop :=
  ∀ t₁ t₂, t = t₁ ++ .mark (.dropping true) :: t₂ → AllSettled t₁ (acceptedCheckpoints t₁)

/-- The marks of due saves find the accepted records settled exactly if the drops do. -/
theorem along_findsSettled {t : RunTrace α χ} : Along FindsSettled [] t ↔ DropsSettled t := by
  rw [along_iff]
  constructor
  · exact fun h t₁ t₂ ht => h t₁ _ t₂ ht rfl
  · intro h t₁ e t₂ ht hdue
    cases e with
    | called o r => cases hdue
    | mark m =>
      cases m with
      | dropping due =>
        cases hdue
        exact h t₁ t₂ ht
      | _ => cases hdue

instance [DecidableEq χ] (t : RunTrace α χ) (e : Event (Call α χ) Call.Ret (Mark α χ)) :
    Decidable (FindsSettled t e) :=
  inferInstanceAs (Decidable (dropsDue e = true → AllSettled t (acceptedCheckpoints t)))

instance [DecidableEq χ] (t : RunTrace α χ) : Decidable (DropsSettled t) :=
  decidable_of_iff _ along_findsSettled

/-- Whenever a checkpoint is saved, it belongs to a record of the source, and this record and all before
it have reached a handled outcome. -/
def SavesHandled (records : List (SourceRecord α χ)) (t : RunTrace α χ) : Prop :=
  ∀ t₁ key checkpoint answer t₂,
    t = t₁ ++ .called (.await (.saveCheckpoint key checkpoint)) answer :: t₂ →
      ∃ before r after, records = before ++ r :: after ∧ r.checkpoint = some checkpoint.value ∧
        ∀ r' ∈ before ++ [r], IsSettled t₁ r'.checkpoint

namespace DeliveryEngine

section Agreements

variable (d : DeliveryEngine α χ) [DecidableEq α] [DecidableEq χ]
  (assume : RunTrace α χ → Event (Call α χ) Call.Ret (Mark α χ) → Prop)

/-- The contracts of a lane and the owner match. -/
def besideAgreement (fuel : ℕ) (main : Delivery ℓ α χ Unit) : (d.withOwner fuel main).Agreement where
  main := d.supervising assume Drains d.Feeds
  helper := d.supervising assume d.Feeds Drains
  before := fun w => d.Outstanding w.trace (checkpoints w.state.pendingWrites)
  mainReturns := fun _ => d.Feeds
  mainRaises := fun _ => d.Feeds
  helperReturns := fun _ => Drains
  helperRaises := fun _ => Drains
  main_ready := fun _ _ _ h => h
  helper_ready := fun _ _ _ h => h
  assume_eq := rfl
  ensure_eq := rfl
  main_rely_refl := Drains.refl
  main_rely_trans := fun _ _ _ h h' => h.trans h'
  helper_rely_refl := Feeds.refl
  helper_rely_trans := fun _ _ _ h h' => h.trans h'
  main_helper := fun _ _ h => h
  helper_main := fun _ _ h => h
  before_stable := fun _ _ hw h => h.pending [] hw
  mainReturns_guarantee := fun _ _ _ h => h
  mainRaises_guarantee := fun _ _ _ h => h
  helperReturns_guarantee := fun _ _ _ h => h
  helperRaises_guarantee := fun _ _ _ h => h
  helper_safe := fun w hw _ => safe_runPendingWriteOwner_idle fuel ⟨.refl w, hw⟩

/-- A lane that runs alone never begins the owner. -/
def aloneAgreement (fuel : ℕ) (main : Delivery ℓ α χ Unit) : (d.withOwner fuel main).Agreement :=
  .unspawned _ (d.aloneContract assume)
    (fun _ w w' => w.state.pendingWriteOwner.isSome = false → w'.state.pendingWriteOwner.isSome = false)
    (fun _ w w' => w.state.pendingWriteOwner.isSome = false → w'.state.pendingWriteOwner.isSome = false)
    (fun _ _ _ h => h) rfl (fun _ _ h => h) (fun _ _ _ h => h) (fun _ _ _ h => h)

end Agreements

end DeliveryEngine

namespace ExecutionCoordinator

open DeliveryEngine

variable (c : ExecutionCoordinator α χ) [DecidableEq α] [DecidableEq χ]
  {assume : RunTrace α χ → Event (Call α χ) Call.Ret (Mark α χ) → Prop}

/-- The lane beside the owner saves only what covers handled records. -/
theorem safe_runQueueLane_beside
    (hassume : ∀ t, assume t (.mark (.dropping true)) → AllSettled t (acceptedCheckpoints t))
    (hbatch : 1 < c.writerBatchSize) (huses : c.usesOwner = true) (fuel : ℕ)
    (records : List (SourceRecord α χ)) {w : RunWorld (List (PendingWrite α χ)) α χ}
    (hw : (c.delivery.beside _).BetweenRecords c.delivery [] w) :
    (c.runQueueLane fuel records).Safe (c.delivery.supervising assume Drains c.delivery.Feeds)
      (fun _ => c.delivery.Feeds) (fun _ => c.delivery.Feeds) w w := by
  unfold runQueueLane
  rw [safe_bind]
  refine ((c.delivery.beside _).safe_source (fun done r w₀ w₁ hw₀ hw₁ => ?_) (Feeds.refl w) hw).mono
    (fun sourceError w₀ w₁ hw₁ => ?_) fun _ _ _ he => he.1
  · rw [c.queueRecord_eq hbatch]
    exact (c.delivery.beside _).safe_record hassume
      (fun value _ _ hw₀' hw' => safe_acceptBeside huses value hw₀' hw') hw₀ hw₁
  · rw [safe_bind]
    refine safe_modify_of fun w₂ hstate htrace => ?_
    have hkept : KeepsQueue w₁ w₂ :=
      ⟨(congrArg RunState.queue hstate).trans rfl, htrace ▸ List.prefix_rfl, by rw [htrace]⟩
    rw [safe_bind]
    refine (safe_flushPendingWrites_beside (hw₁.1.kept hkept) (hkept.queue ▸ hw₁.2)).mono
      (fun _ _ w₃ hw₃ => ?_) fun _ _ _ he => he
    cases sourceError with
    | none => exact hw₃
    | some exc => exact hw₃

/-- Where every drop finds the accepted records settled, only checkpoints that cover handled records are
saved. -/
theorem along_savesCovered (hbatch : 1 < c.writerBatchSize) (fuel : ℕ)
    (records : List (SourceRecord α χ)) (h : Environment α χ) (lastSaved : Option χ)
    (turns : List Turn)
    (hdrops : Along FindsSettled [] (c.linearRun fuel records h lastSaved turns).world.trace) :
    Along c.delivery.SavesCovered [] (c.linearRun fuel records h lastSaved turns).world.trace := by
  have hassume : ∀ t : RunTrace α χ, FindsSettled t (.mark (.dropping true)) →
      AllSettled t (acceptedCheckpoints t) := fun _ ht => ht rfl
  let w : RunWorld (List (PendingWrite α χ)) α χ := ⟨RunState.initial [] lastSaved, []⟩
  cases huses : c.usesOwner with
  | true =>
    have hmain : (c.runLinearLane fuel records).Safe
        (c.delivery.supervising FindsSettled Drains c.delivery.Feeds) (fun _ => c.delivery.Feeds)
        (fun _ => c.delivery.Feeds) w w := by
      unfold runLinearLane
      rw [if_neg (by simp [huses])]
      exact c.safe_runQueueLane_beside hassume hbatch huses fuel records
        ⟨⟨nofun, fun _ => rfl, nofun⟩, rfl, nofun⟩
    obtain ⟨t, ht, hpost⟩ := System.sound_run (w := w)
      (c.delivery.besideAgreement FindsSettled fuel (c.runLinearLane fuel records)) h
      outstanding_nil hmain turns
    rw [List.nil_append] at ht
    change (c.linearRun fuel records h lastSaved turns).world.trace = t at ht
    rw [ht] at hdrops ⊢
    exact (hpost hdrops).1
  | false =>
    have hmain : (c.runLinearLane fuel records).Safe (c.delivery.aloneContract FindsSettled)
        (fun _ => c.queueing.guarantee) (fun _ => c.queueing.guarantee) w w := by
      unfold runLinearLane
      split
      · exact c.safe_runBufferLane hassume huses fuel records
          ⟨⟨⟨⟨rfl, nofun⟩, fun _ => rfl⟩, outstanding_nil⟩, rfl, nofun⟩
      · exact c.safe_runQueueLane_alone hassume hbatch huses fuel records
          ⟨⟨⟨⟨rfl, nofun⟩, trivial⟩, outstanding_nil⟩, rfl, nofun⟩
    obtain ⟨t, ht, hpost⟩ := System.sound_run (w := w)
      (c.delivery.aloneAgreement FindsSettled fuel (c.runLinearLane fuel records)) h rfl hmain turns
    rw [List.nil_append] at ht
    change (c.linearRun fuel records h lastSaved turns).world.trace = t at ht
    rw [ht] at hdrops ⊢
    exact (hpost hdrops).1

/-- Along every run the records are taken in their order. -/
theorem along_takenInOrder (fuel : ℕ) (records : List (SourceRecord α χ)) (h : Environment α χ)
    (lastSaved : Option χ) (turns : List Turn) :
    Along (TakenInOrder records) [] (c.linearRun fuel records h lastSaved turns).world.trace := by
  have hmark : ∀ (t : RunTrace α χ) m, m.IsDelivery → True → TakenInOrder records t (.mark m) := by
    intro t m hm _ record he
    cases he
    exact hm.elim
  obtain ⟨t, ht, hpost⟩ := c.delivery.withOwner_sound hmark (fun _ _ _ _ => nofun)
    (c.safe_runLinearLane_inOrder fuel records rfl) h turns
    (c := c.linearRun fuel records h lastSaved turns) rfl
  rw [List.nil_append] at ht
  rw [ht]
  exact (hpost (along_iff.mpr fun _ _ _ _ => trivial)).1

/-- In every run of the linear lane with a batched writer, in each of the three buffering modes and in
any order of the turns, a checkpoint is saved only when its record and all records before it are
handled, as long as a dropped or failed record whose save is due finds the accepted records settled. -/
theorem runLinearLane_saves_handled (hbatch : 1 < c.writerBatchSize) (fuel : ℕ)
    {records : List (SourceRecord α χ)} (hrecords : ∀ r ∈ records, r.checkpoint.isSome = true)
    (h : Environment α χ) (lastSaved : Option χ) (turns : List Turn)
    (hdrops : DropsSettled (c.linearRun fuel records h lastSaved turns).world.trace) :
    SavesHandled records (c.linearRun fuel records h lastSaved turns).world.trace := by
  have hcovered := c.along_savesCovered hbatch fuel records h lastSaved turns
    (along_findsSettled.mpr hdrops)
  have horder := c.along_takenInOrder fuel records h lastSaved turns
  intro t₁ key checkpoint answer t₂ ht
  obtain ⟨hstore, before, r, after, hconsumed, hr, hall⟩ :=
    along_iff.mp hcovered t₁ _ t₂ ht key checkpoint answer rfl
  rw [ht, along_append] at horder
  obtain ⟨more, hmore⟩ := consumedRecords_prefix horder.1
  have hsplit : records = before ++ r :: (after ++ more) := by
    rw [← hmore, ← List.cons_append, ← List.append_assoc, ← hconsumed]
    rfl
  refine ⟨before, r, after ++ more, hsplit, hr, fun r' hr' => hall r' hr' hstore (hrecords r' ?_)⟩
  rw [hsplit, List.append_cons]
  exact List.mem_append_left _ hr'

end ExecutionCoordinator

/-! ## A record that is dropped while another one waits -/

/-- A filter that drops the record. -/
def dropsRecord (record : ℕ) : Environment ℕ ℕ
  | _, .await (.predicate _ value) => .ok (value != record)
  | t, o => undisturbed t o

/-- A lane with a batch size of two behind the filter. -/
def pairLane : ExecutionCoordinator ℕ ℕ :=
  { ExecutionCoordinator.standard (.standard true) [⟨"keep", .filter false, 1⟩] with
    writerBatchSize := 2
    writerBatchSize_pos := Nat.two_pos }

/-- Two records with their checkpoints. -/
def pairRecords : List (SourceRecord ℕ ℕ) := [⟨1, some 10, []⟩, ⟨2, some 20, []⟩]

/-- The lane over the two records, of which the filter drops one. -/
def dropRun (record : ℕ) :
    System.Config (Call ℕ ℕ) Call.Ret (Mark ℕ ℕ) (RunState (List (PendingWrite ℕ ℕ)) ℕ ℕ) Exc Unit :=
  pairLane.linearRun 4 pairRecords (dropsRecord record) none (List.replicate 20 .main)

/-- If the first record is dropped, nothing waits when its checkpoint is saved. -/
theorem runLinearLane_saves_handled_first :
    SavesHandled pairRecords (dropRun 1).world.trace ∧ saves (dropRun 1).world.trace = [10, 20] :=
  ⟨ExecutionCoordinator.runLinearLane_saves_handled pairLane Nat.one_lt_two 4 (by decide)
    (dropsRecord 1) none (List.replicate 20 .main) (by decide +kernel), by decide +kernel⟩

/-- If the second record is dropped, its checkpoint is saved while the first one waits for its batch. -/
theorem not_runLinearLane_saves_handled_second :
    ¬ SavesHandled pairRecords (dropRun 2).world.trace := by
  intro h
  let checkpoint : Checkpoint ℕ := pairLane.delivery.checkpointOf 20
  have hcut : (dropRun 2).world.trace = (dropRun 2).world.trace.take 9 ++
      .called (.await (.saveCheckpoint "orders" checkpoint)) (.ok ()) ::
        (dropRun 2).world.trace.drop 10 := by
    rfl
  obtain ⟨before, r, after, hrecords, hr, hsettled⟩ := h _ _ _ _ _ hcut
  have hfirst : ¬ IsSettled ((dropRun 2).world.trace.take 9) (some 10) := by decide +kernel
  cases before with
  | nil =>
    obtain rfl : r = ⟨1, some 10, []⟩ := (List.cons.inj hrecords).1.symm
    exact absurd (Option.some.inj hr) (by decide)
  | cons first before =>
    obtain rfl : first = ⟨1, some 10, []⟩ := (List.cons.inj hrecords).1.symm
    exact hfirst (hsettled _ List.mem_cons_self)

end AgoraEtl
