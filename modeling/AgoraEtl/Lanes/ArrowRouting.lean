import Mathlib.Data.List.Perm.Subperm
import AgoraEtl.Lanes.ArrowFailure

/-!
# Routing the rows of a failed Arrow write

When the write of an Arrow batch raises, the lane offers the failure to the dead-letter writer once
for each pair of a raw row and an output row, and pairs them by position.  A chain may however filter
rows out or reorder them.  `ArrowOutput` is a row that a chain has put out together with the position
of the raw row it was computed from, and `FailureRouted` says what a failed write of such rows should
come to.  `failureRouted_iff` is the exact condition: as many rows as the source has sent, and by
position the pairs of the origins, whatever their order.
-/

namespace AgoraEtl

open Effect Program

variable {ℓ α χ : Type}

/-! ## Output rows and their origins -/

/-- A row that an Arrow chain has put out, with the position of the raw row it was computed from. -/
structure ArrowOutput (rawRows : List α) : Type where
  origin : Fin rawRows.length
  row : α

/-- The raw row of an output row, with the output row. -/
def ArrowOutput.pair {rawRows : List α} (output : ArrowOutput rawRows) : α × Option α :=
  (rawRows.get output.origin, some output.row)

/-! ## Offering rows to the dead-letter writer -/

/-- Of the pairs, the dead-letter sink has captured all but so many, each of them once, and the
writer has reported the others. -/
structure Offered (pairs : List (Option α × Option α)) (lost : ℕ) (w w' : RunWorld ℓ α χ) :
    Prop where
  letters : ∃ letters, deadLetters w'.trace = deadLetters w.trace ++ letters ∧
    List.Subperm (letters.map DLQRecord.rows) pairs ∧ letters.length + lost = pairs.length
  reported : unroutedErrors w'.trace = unroutedErrors w.trace ++ List.replicate lost false

/-- The dead-letter writer has raised before all pairs were captured. -/
structure Interrupted (pairs : List (Option α × Option α)) (w w' : RunWorld ℓ α χ) : Prop where
  letters : ∃ letters, deadLetters w'.trace = deadLetters w.trace ++ letters ∧
    List.Subperm (letters.map DLQRecord.rows) pairs ∧ letters.length < pairs.length
  reported : ∃ lost, unroutedErrors w'.trace =
    unroutedErrors w.trace ++ (List.replicate lost false ++ [true])

namespace Offered

variable {pairs pairs' : List (Option α × Option α)} {lost lost' : ℕ} {w w' w'' : RunWorld ℓ α χ}

theorem perm (h : Offered pairs lost w w') (hperm : pairs.Perm pairs') : Offered pairs' lost w w' := by
  obtain ⟨letters, ht, hsub, hlength⟩ := h.letters
  exact ⟨⟨letters, ht, hsub.trans hperm.subperm, hlength.trans hperm.length_eq⟩, h.reported⟩

/-- Only the state has changed before. -/
theorem of_trace (h : Offered pairs lost w' w'') (htrace : w'.trace = w.trace) :
    Offered pairs lost w w'' :=
  ⟨htrace ▸ h.letters, htrace ▸ h.reported⟩

theorem append (h : Offered pairs lost w w') (h' : Offered pairs' lost' w' w'') :
    Offered (pairs ++ pairs') (lost + lost') w w'' := by
  obtain ⟨letters, ht, hsub, hlength⟩ := h.letters
  obtain ⟨letters', ht', hsub', hlength'⟩ := h'.letters
  refine ⟨⟨letters ++ letters', ?_, ?_, ?_⟩, ?_⟩
  · rw [ht', ht, List.append_assoc]
  · rw [List.map_append]
    exact hsub.append hsub'
  · rw [List.length_append, List.length_append]
    omega
  · rw [h'.reported, h.reported, List.append_assoc, List.replicate_append_replicate]

theorem interrupted (h : Offered pairs lost w w') (h' : Interrupted pairs' w' w'') :
    Interrupted (pairs ++ pairs') w w'' := by
  obtain ⟨letters, ht, hsub, hlength⟩ := h.letters
  obtain ⟨letters', ht', hsub', hlength'⟩ := h'.letters
  obtain ⟨lost', hreported'⟩ := h'.reported
  refine ⟨⟨letters ++ letters', ?_, ?_, ?_⟩, lost + lost', ?_⟩
  · rw [ht', ht, List.append_assoc]
  · rw [List.map_append]
    exact hsub.append hsub'
  · rw [List.length_append, List.length_append]
    omega
  · rw [hreported', h.reported, ← List.replicate_append_replicate]
    simp only [List.append_assoc]

end Offered

namespace Interrupted

variable {pairs pairs' : List (Option α × Option α)} {w w' w'' : RunWorld ℓ α χ}

theorem perm (h : Interrupted pairs w w') (hperm : pairs.Perm pairs') : Interrupted pairs' w w' := by
  obtain ⟨letters, ht, hsub, hlength⟩ := h.letters
  exact ⟨⟨letters, ht, hsub.trans hperm.subperm, hlength.trans_eq hperm.length_eq⟩, h.reported⟩

/-- Only the state has changed before. -/
theorem of_trace (h : Interrupted pairs w' w'') (htrace : w'.trace = w.trace) :
    Interrupted pairs w w'' :=
  ⟨htrace ▸ h.letters, htrace ▸ h.reported⟩

/-- The rows after the interruption are not captured either. -/
theorem append_right (h : Interrupted pairs w w') (pairs' : List (Option α × Option α)) :
    Interrupted (pairs ++ pairs') w w' := by
  obtain ⟨letters, ht, hsub, hlength⟩ := h.letters
  refine ⟨⟨letters, ht, hsub.trans (List.sublist_append_left _ _).subperm, ?_⟩, h.reported⟩
  rw [List.length_append]
  omega

end Interrupted

/-- How offering the pairs to the dead-letter writer ends: all of them were captured exactly if it
returns `true`, and it may raise. -/
def RoutingEnds (pairs : List (Option α × Option α)) (w : RunWorld ℓ α χ) :
    Outcome Exc Bool × RunWorld ℓ α χ → Prop
  | (.returned routed, w') => ∃ lost, Offered pairs lost w w' ∧ routed = decide (lost = 0)
  | (.raised _, w') => Interrupted pairs w w'
  | (.hung, _) => False

theorem RoutingEnds.perm {pairs pairs' : List (Option α × Option α)} {w : RunWorld ℓ α χ}
    {r : Outcome Exc Bool × RunWorld ℓ α χ} (h : RoutingEnds pairs w r)
    (hperm : pairs.Perm pairs') : RoutingEnds pairs' w r := by
  obtain ⟨r, w'⟩ := r
  cases r with
  | returned routed =>
    obtain ⟨lost, hoffered, hrouted⟩ := h
    exact ⟨lost, hoffered.perm hperm, hrouted⟩
  | raised e => exact Interrupted.perm h hperm
  | hung => exact h

/-! ## The dead-letter writer -/

/-- Nothing was captured or reported. -/
structure OffersNothing (w w' : RunWorld ℓ α χ) : Prop where
  deadLetters : AgoraEtl.deadLetters w'.trace = AgoraEtl.deadLetters w.trace
  reported : unroutedErrors w'.trace = unroutedErrors w.trace

namespace OffersNothing

variable {pair : Option α × Option α} {w w' : RunWorld ℓ α χ}

theorem refl (w : RunWorld ℓ α χ) : OffersNothing w w := ⟨rfl, rfl⟩

/-- The call writes no dead letter that is captured. -/
theorem called (h : OffersNothing w w') (o : Call α χ) (r : o.Ret)
    (hletters : AgoraEtl.deadLetters [.called o r] = []) : OffersNothing w (w'.called o r) := by
  refine ⟨?_, ?_⟩
  · rw [World.called_trace, deadLetters_append, hletters, List.append_nil, h.deadLetters]
  · rw [World.called_trace, unroutedErrors_append, h.reported]
    exact List.append_nil _

/-- A report that the pair was not captured. -/
theorem offered (h : OffersNothing w w') :
    Offered [pair] 1 w (w'.mark (.uncaptured "sink_write" false)) := by
  refine ⟨⟨[], ?_, List.nil_subperm, rfl⟩, ?_⟩
  · rw [World.mark_trace, deadLetters_append, deadLetters_mark, h.deadLetters]
  · rw [World.mark_trace, unroutedErrors_append, h.reported]
    rfl

/-- A report that the writer raises. -/
theorem interrupted (h : OffersNothing w w') :
    Interrupted [pair] w (w'.mark (.uncaptured "sink_write" true)) := by
  refine ⟨⟨[], ?_, List.nil_subperm, Nat.one_pos⟩, 0, ?_⟩
  · rw [World.mark_trace, deadLetters_append, deadLetters_mark, h.deadLetters]
  · rw [World.mark_trace, unroutedErrors_append, h.reported]
    rfl

end OffersNothing

section Programs

variable {assume : RunTrace α χ → Event (Call α χ) Call.Ret (Mark α χ) → Prop}
  {w₀ w : RunWorld ℓ α χ} (d : DeliveryEngine α χ)

/-- The attempt to capture a failure for one pair of rows. -/
theorem safe_attemptDlqWrite_offered (stage : String) (exc : Exc) (record : α)
    (processed : Option α) (checkpoint : Option χ) (middleware : Option String) :
    (d.attemptDlqWrite stage exc record processed checkpoint middleware : Delivery ℓ α χ Unit).Safe
      (.alone assume (fun _ _ => True) False)
      (fun _ _ w' => Offered [d.letterRows (record, processed)] 0 w w')
      (fun _ _ w' => OffersNothing w w') w₀ w := by
  refine d.safe_attemptDlqWrite_of (OffersNothing.refl w)
    (fun _ => (OffersNothing.refl w).called _ _ rfl) (fun _ hw' => hw'.called _ _ rfl)
    (fun hw' => hw') (fun {w'} value hw' => ?_) fun _ _ hw' => hw'.called _ _ rfl
  refine ⟨⟨[d.dlqRecord stage exc (some record) (some record) processed value middleware], ?_,
    List.Subperm.refl _, rfl⟩, ?_⟩
  · rw [World.called_trace, deadLetters_append, hw'.deadLetters]
    rfl
  · rw [World.called_trace, unroutedErrors_append, hw'.reported]
    rfl

/-- The step lemma: offering one pair.  A failure that is not eligible is reported whatever the
pair. -/
theorem safe_writeToDlq_offered (exc : Exc) (record : α) (processed : Option α)
    (checkpoint : Option χ) {pair : Option α × Option α}
    (hpair : exc.dlqEligible = true → d.letterRows (record, processed) = pair) :
    (d.writeToDlq "sink_write" exc record processed checkpoint none : Delivery ℓ α χ Bool).Safe
      (.alone assume (fun _ _ => True) False)
      (fun routed _ w' => ∃ lost, Offered [pair] lost w w' ∧ routed = decide (lost = 0))
      (fun _ _ w' => Interrupted [pair] w w') w₀ w := by
  refine d.safe_writeToDlq_of (OffersNothing.refl w) (fun heligible => ?_)
    (fun _ hw' => ⟨hw'.deadLetters, hw'.reported⟩) (fun hw' _ => ⟨trivial, 1, hw'.offered, rfl⟩)
    fun hw' _ => ⟨trivial, hw'.interrupted⟩
  refine (safe_attemptDlqWrite_offered d _ _ _ _ _ _).mono (fun _ _ w' hw' => ?_) fun _ _ _ hw' => hw'
  rw [hpair heligible] at hw'
  exact ⟨0, hw', rfl⟩

/-- The run lemma: offering the pairs one after the other. -/
theorem safe_routeAll_offered (exc : Exc) (checkpoint : Option χ) (pairs : List (α × Option α))
    (expected : List (Option α × Option α)) (hlength : pairs.length = expected.length)
    (hpairs : exc.dlqEligible = true → pairs.map d.letterRows = expected) :
    (d.routeAll "sink_write" exc checkpoint none pairs : Delivery ℓ α χ Bool).Safe
      (.alone assume (fun _ _ => True) False)
      (fun routed _ w' => ∃ lost, Offered expected lost w w' ∧ routed = decide (lost = 0))
      (fun _ _ w' => Interrupted expected w w') w₀ w := by
  induction pairs generalizing expected w₀ w with
  | nil =>
    obtain rfl : expected = [] := List.length_eq_zero_iff.mp hlength.symm
    exact ⟨0, ⟨⟨[], by rw [List.append_nil], List.Subperm.refl _, rfl⟩,
      by rw [List.replicate_zero, List.append_nil]⟩, rfl⟩
  | cons pair pairs ih =>
    obtain ⟨row, processed⟩ := pair
    cases expected with
    | nil => cases hlength
    | cons rows expected =>
      unfold DeliveryEngine.routeAll
      rw [safe_bind]
      refine (safe_writeToDlq_offered d _ _ _ _ fun h => (List.cons.inj (hpairs h)).1).mono
        (fun ok _ w' hw' => ?_) fun _ _ w' hw' => hw'.append_right expected
      obtain ⟨lost, hoffered, rfl⟩ := hw'
      rw [safe_bind]
      refine (ih expected (Nat.succ_injective hlength) fun h => (List.cons.inj (hpairs h)).2).mono
        (fun routed _ w'' hw'' => ?_) fun _ _ w'' hw'' => hoffered.interrupted hw''
      obtain ⟨lost', hoffered', rfl⟩ := hw''
      refine ⟨lost + lost', hoffered.append hoffered', ?_⟩
      simp only [Nat.add_eq_zero_iff, Bool.decide_and]

end Programs

/-! ## A failed write -/

namespace ExecutionCoordinator

variable [DecidableEq χ] (c : ExecutionCoordinator α χ)

/-- The pairs in which the output rows should be shown to the dead-letter sink: each with the raw row
it was computed from. -/
def originPairs (batch : SourceBatch α χ) (outputs : List (ArrowOutput batch.rows)) :
    List (Option α × Option α) :=
  outputs.map fun output => c.delivery.letterRows output.pair

/-- The pairs that the lane makes: by position. -/
def positionPairs (batch : SourceBatch α χ) (outputs : List (ArrowOutput batch.rows)) :
    List (Option α × Option α) :=
  (batch.rows.zip (outputs.map ArrowOutput.row)).map fun p => c.delivery.letterRows (p.1, some p.2)

/-- What a failed write of the output rows should come to.  Every output row is offered to the
dead-letter sink once, with the raw row it was computed from, and no other row is; then the failure of
the write stops the run or the checkpoint is saved, by what was captured and by the policy.  Only the
dead-letter writer itself may end the run before that. -/
def RoutedRun (batch : SourceBatch α χ) (outputs : List (ArrowOutput batch.rows)) (exc : Exc)
    (h : Environment α χ) (w w₁ : RunWorld ℓ α χ) : Prop :=
  ∃ w₂,
    (∃ lost, Offered (c.originPairs batch outputs) lost w₁ w₂ ∧
      (c.finalizeArrowBatchResult batch ⟨outputs.map ArrowOutput.row, none⟩).run h w =
        if lost = 0 ∨ c.delivery.sinkFailurePolicy = .logAndContinue then
          (c.settleArrow batch).run h w₂
        else (.raised (.recordDelivery exc), w₂)) ∨
    ∃ e, Interrupted (c.originPairs batch outputs) w₁ w₂ ∧
      (c.finalizeArrowBatchResult batch ⟨outputs.map ArrowOutput.row, none⟩).run h w =
        (.raised e, w₂)

/-- Every write of the output rows that raises the exception is handled so, whatever the
environment. -/
def FailureRouted (batch : SourceBatch α χ) (outputs : List (ArrowOutput batch.rows)) (exc : Exc) :
    Prop :=
  ∀ (h : Environment α χ) (w w₁ : RunWorld (PipelineState α χ) α χ),
    c.ArrowFails h w batch (some ⟨outputs.map ArrowOutput.row, none⟩)
      (.write exc (outputs.map ArrowOutput.row)) w₁ → c.RoutedRun batch outputs exc h w w₁

/-- The chain has put out as many rows as the source has sent and, if the failure is eligible for the
dead-letter queue, pairing by position gives the pairs of the origins in some order. -/
def PairsUp (batch : SourceBatch α χ) (outputs : List (ArrowOutput batch.rows)) (exc : Exc) : Prop :=
  outputs.length = batch.rows.length ∧
    (exc.dlqEligible = true →
      (c.positionPairs batch outputs).Perm (c.originPairs batch outputs))

/-- What the lane does after it has offered the rows. -/
def decideFate (batch : SourceBatch α χ) (exc : Exc) (rows : List α) (routed : Bool) :
    Delivery ℓ α χ Unit :=
  if batch.rows.length ≠ rows.length then
    raise (DeliveryEngine.zipStrictError batch.rows.length rows.length)
  else if routed || c.delivery.sinkFailurePolicy = .logAndContinue then c.settleArrow batch
  else raiseRecordDelivery exc

variable {c} {batch : SourceBatch α χ} {outputs : List (ArrowOutput batch.rows)} {exc : Exc}
  {h : Environment α χ}

/-- The run of the finalizer after the write has raised. -/
theorem run_finalize_failedWrite (hdlq : c.delivery.dlqSink = true) (hexc : exc.isException = true)
    {rows : List α} {w w₁ : RunWorld ℓ α χ}
    (hfails : c.ArrowFails h w batch (some ⟨rows, none⟩) (.write exc rows) w₁) :
    (c.finalizeArrowBatchResult batch ⟨rows, none⟩).run h w =
      (c.captureArrow batch (.write exc rows) >>= c.decideFate batch exc rows).run h w₁ := by
  obtain ⟨hrows, hwrite⟩ := hfails
  have hempty : rows.isEmpty = false := by
    change (if (none : Option BatchFailure).isSome || rows.isEmpty then none else some rows) =
      some rows at hrows
    split at hrows
    · cases hrows
    · rename_i hnot
      simpa using hnot
  have hhandler : (c.arrowWriteFailed exc batch.checkpoint batch.rows rows >>=
      fun _ => c.settleArrow batch : Delivery ℓ α χ Unit) =
        c.captureArrow batch (.write exc rows) >>= c.decideFate batch exc rows := by
    unfold arrowWriteFailed captureArrow
    rw [hdlq]
    simp only [if_true, bind_assoc]
    congr 1
    funext _
    congr 1
    funext routed
    unfold decideFate
    split
    · rfl
    · dsimp only [pure_eq_ret, ret_bind]
      split
      · rfl
      · rfl
  unfold finalizeArrowBatchResult
  rw [run_bind, run_note, hempty, ← hhandler]
  change (catchException (c.writeArrowRows rows) _ >>= fun _ => c.settleArrow batch).run h _ = _
  unfold catchException
  rw [bind_assoc, run_bind, run_attempt, hwrite]
  change ((if exc.isException then _ else _) >>= _ : Delivery ℓ α χ Unit).run h w₁ = _
  rw [if_pos hexc]

omit [DecidableEq χ] in
/-- Offering the rows of a failed write. -/
theorem run_captureArrow_ends (h : Environment α χ) {rows : List α}
    {expected : List (Option α × Option α)}
    (hlength : (batch.rows.zip rows).length = expected.length)
    (hpairs : exc.dlqEligible = true →
      ((batch.rows.zip rows).map fun p => c.delivery.letterRows (p.1, some p.2)) = expected)
    (w : RunWorld ℓ α χ) :
    RoutingEnds expected w ((c.captureArrow batch (.write exc rows)).run h w) := by
  have hsafe : (c.captureArrow batch (.write exc rows) : Delivery ℓ α χ Bool).Safe
      (.answered h False)
      (fun routed _ w' => ∃ lost, Offered expected lost w w' ∧ routed = decide (lost = 0))
      (fun _ _ w' => Interrupted expected w w') w w := by
    refine (safe_bind _ _).mpr (safe_modify_of fun w₁ _ htrace => ?_)
    refine (safe_routeAll_offered c.delivery exc batch.checkpoint _ expected
      ?_ fun heligible => ?_).mono (fun _ _ w' hw' => ?_) fun _ _ w' hw' => hw'.of_trace htrace
    · exact (List.length_map ..).trans hlength
    · exact (List.map_map ..).trans (hpairs heligible)
    · obtain ⟨lost, hoffered, hrouted⟩ := hw'
      exact ⟨lost, hoffered.of_trace htrace, hrouted⟩
  have hend := hsafe.run_answered
  cases hrun : (c.captureArrow batch (.write exc rows)).run h w with
  | mk r w' =>
    rw [hrun] at hend
    cases r with
    | returned routed => exact hend.elim fun _ hw' => hw'
    | raised e => exact hend.elim fun _ hw' => hw'
    | hung => exact hend

omit [DecidableEq χ] in
/-- Offering output rows that pair up with the raw rows. -/
theorem PairsUp.run_captureArrow (hpairs : c.PairsUp batch outputs exc) (h : Environment α χ)
    (w : RunWorld ℓ α χ) :
    RoutingEnds (c.originPairs batch outputs) w
      ((c.captureArrow batch (.write exc (outputs.map ArrowOutput.row))).run h w) := by
  obtain ⟨hlength, hperm⟩ := hpairs
  cases heligible : exc.dlqEligible with
  | true =>
    exact (run_captureArrow_ends h (List.length_map ..).symm (fun _ => rfl) w).perm
      (hperm heligible)
  | false =>
    -- the rows are not shown to the sink, so it does not matter which they are
    refine run_captureArrow_ends h ?_ (fun htrue => ?_) w
    · rw [List.length_zip, List.length_map, hlength, min_self, ← hlength]
      exact (List.length_map ..).symm
    · rw [heligible] at htrue
      cases htrue

/-- Output rows that pair up with the raw rows are offered with their origins. -/
theorem PairsUp.routedRun (hdlq : c.delivery.dlqSink = true) (hexc : exc.isException = true)
    (hpairs : c.PairsUp batch outputs exc) {w w₁ : RunWorld ℓ α χ}
    (hfails : c.ArrowFails h w batch (some ⟨outputs.map ArrowOutput.row, none⟩)
      (.write exc (outputs.map ArrowOutput.row)) w₁) : c.RoutedRun batch outputs exc h w w₁ := by
  have hends := hpairs.run_captureArrow h w₁
  have hrows : (outputs.map ArrowOutput.row).length = batch.rows.length :=
    (List.length_map ..).trans hpairs.1
  unfold RoutedRun
  rw [run_finalize_failedWrite hdlq hexc hfails, run_bind]
  cases hrun : (c.captureArrow batch (.write exc (outputs.map ArrowOutput.row))).run h w₁ with
  | mk r w₂ =>
    rw [hrun] at hends
    cases r with
    | hung => exact hends.elim
    | raised e => exact ⟨w₂, .inr ⟨e, hends, rfl⟩⟩
    | returned routed =>
      obtain ⟨lost, hoffered, rfl⟩ := hends
      refine ⟨w₂, .inl ⟨lost, hoffered, ?_⟩⟩
      dsimp only
      unfold decideFate
      rw [if_neg (not_not_intro hrows.symm), ← Bool.decide_or]
      by_cases hgoes : lost = 0 ∨ c.delivery.sinkFailurePolicy = .logAndContinue
      · rw [if_pos hgoes, if_pos (decide_eq_true hgoes)]
      · rw [if_neg hgoes, if_neg fun htrue => hgoes (of_decide_eq_true htrue)]
        rfl

/-! ## A sink that takes every dead letter -/

omit [DecidableEq χ] in
/-- Nothing comes between a failure and the dead-letter sink, and the sink takes it. -/
def TakesLetters (h : Environment α χ) : Prop :=
  ∀ t, h t (.await .validateFence) = .ok true ∧
    (∃ value, h t (.await .currentCheckpoint) = .ok value) ∧
    ∀ letter, h t (.await (.dlqWrite letter)) = .ok ()

omit [DecidableEq χ] in
theorem safe_attemptDlqWrite_taken (htakes : TakesLetters h) (d : DeliveryEngine α χ)
    (stage : String) (exc : Exc) (record : α) (processed : Option α) (checkpoint : Option χ)
    (middleware : Option String) {w₀ w : RunWorld ℓ α χ} :
    (d.attemptDlqWrite stage exc record processed checkpoint middleware : Delivery ℓ α χ Unit).Safe
      (.answered h False) (fun _ _ _ => True) (fun _ _ _ => False) w₀ w := by
  have hwrite : ∀ (letter : DLQRecord α χ) {w₀ w : RunWorld ℓ α χ},
      (invoke (.dlqWrite letter) : Delivery ℓ α χ Unit).Safe (.answered h False)
        (fun _ _ _ => True) (fun _ _ _ => False) w₀ w := by
    intro letter w₀ w
    refine safe_invoke.mpr fun r hr => ⟨trivial, ?_⟩
    rw [hr _ _ rfl, (htakes w.trace).2.2 letter]
    trivial
  unfold DeliveryEngine.attemptDlqWrite
  rw [safe_bind]
  have hfence : (d.assertRunFenceActive : Delivery ℓ α χ Unit).Safe (.answered h False)
      (fun _ _ _ => True) (fun _ _ _ => False) w₀ w := by
    unfold DeliveryEngine.assertRunFenceActive
    split
    · rw [safe_bind]
      refine safe_invoke.mpr fun r hr => ⟨trivial, ?_⟩
      rw [hr _ _ rfl, (htakes w.trace).1]
      trivial
    · trivial
  refine hfence.mono (fun _ _ w₁ _ => ?_) fun _ _ _ he => he
  cases checkpoint with
  | some value => exact hwrite _
  | none =>
    dsimp only
    rw [safe_bind]
    refine safe_invoke.mpr fun r hr => ⟨trivial, ?_⟩
    obtain ⟨value, hvalue⟩ := (htakes w₁.trace).2.1
    rw [hr _ _ rfl, hvalue]
    exact hwrite _

omit [DecidableEq χ] in
/-- The sink captures every failure that is eligible. -/
theorem safe_routeAll_taken (htakes : TakesLetters h) {d : DeliveryEngine α χ}
    (hdlq : d.dlqSink = true) (stage : String) (exc : Exc) (checkpoint : Option χ)
    (middleware : Option String) (pairs : List (α × Option α)) {w₀ w : RunWorld ℓ α χ} :
    (d.routeAll stage exc checkpoint middleware pairs : Delivery ℓ α χ Bool).Safe
      (.answered h False) (fun routed _ _ => exc.dlqEligible = true → routed = true)
      (fun _ _ _ => False) w₀ w := by
  induction pairs generalizing w₀ w with
  | nil => exact fun _ => rfl
  | cons pair pairs ih =>
    have hwrite : (d.writeToDlq stage exc pair.1 pair.2 checkpoint middleware :
        Delivery ℓ α χ Bool).Safe (.answered h False)
        (fun routed _ _ => exc.dlqEligible = true → routed = true) (fun _ _ _ => False) w₀ w := by
      unfold DeliveryEngine.writeToDlq
      split
      · rename_i hnot
        rw [safe_bind, safe_note]
        refine fun _ => ⟨trivial, fun heligible => ?_⟩
        rw [hdlq, heligible] at hnot
        cases hnot with
        | inl hsink => cases hsink
        | inr hexc => cases hexc
      · rw [safe_bind, safe_attempt]
        exact (safe_attemptDlqWrite_taken htakes d _ _ _ _ _ _).mono (fun _ _ _ _ _ => rfl)
          fun _ _ _ he => he.elim
    unfold DeliveryEngine.routeAll
    rw [safe_bind]
    refine hwrite.mono (fun ok _ w' hok => ?_) fun _ _ _ he => he
    rw [safe_bind]
    refine ih.mono (fun routed _ w'' hrouted heligible => ?_) fun _ _ _ he => he
    rw [hok heligible, hrouted heligible]
    rfl

omit [DecidableEq χ] in
/-- Offering the rows to a sink that takes every dead letter never raises. -/
theorem run_captureArrow_taken (htakes : TakesLetters h) (hdlq : c.delivery.dlqSink = true)
    (outputs : List (ArrowOutput batch.rows)) (exc : Exc) (w : RunWorld ℓ α χ) :
    ∃ routed lost w', (c.captureArrow batch (.write exc (outputs.map ArrowOutput.row))).run h w =
        (.returned routed, w') ∧
      Offered (c.positionPairs batch outputs) lost w w' ∧ routed = decide (lost = 0) ∧
      (exc.dlqEligible = true → routed = true) := by
  have hends : RoutingEnds (c.positionPairs batch outputs) w
      ((c.captureArrow batch (.write exc (outputs.map ArrowOutput.row))).run h w) :=
    run_captureArrow_ends h (List.length_map ..).symm (fun _ => rfl) w
  have hsafe : (c.captureArrow batch (.write exc (outputs.map ArrowOutput.row)) :
      Delivery ℓ α χ Bool).Safe (.answered h False)
      (fun routed _ _ => exc.dlqEligible = true → routed = true) (fun _ _ _ => False) w w :=
    (safe_bind _ _).mpr (safe_modify_of fun _ _ _ => safe_routeAll_taken htakes hdlq _ _ _ _ _)
  have hend := hsafe.run_answered
  cases hrun : (c.captureArrow batch (.write exc (outputs.map ArrowOutput.row))).run h w with
  | mk r w' =>
    rw [hrun] at hends hend
    cases r with
    | hung => exact hend.elim
    | raised e => exact hend.elim fun _ hfalse => hfalse.elim
    | returned routed =>
      obtain ⟨lost, hoffered, hrouted⟩ := hends
      obtain ⟨-, heligible⟩ := hend
      exact ⟨routed, lost, w', rfl, hoffered, hrouted, heligible⟩

/-- Where every dead letter is taken, a run in which the rows do not pair up in number stops with the
error of `zip`, and that is no end of a routed run. -/
theorem RoutedRun.not_zipStrictError {w w₁ w₂ : RunWorld ℓ α χ} {lost left right : ℕ}
    {pairs : List (Option α × Option α)} (hrouted : c.RoutedRun batch outputs exc h w w₁)
    (hoffered : Offered pairs lost w₁ w₂) :
    (c.finalizeArrowBatchResult batch ⟨outputs.map ArrowOutput.row, none⟩).run h w ≠
      (.raised (DeliveryEngine.zipStrictError left right), w₂) := by
  intro hrun
  obtain ⟨w₃, ⟨lost', -, hend⟩ | ⟨e, hinterrupted, hend⟩⟩ := hrouted
  · rw [hrun] at hend
    split at hend
    · -- saving the checkpoint raises errors of its own
      obtain ⟨-, hsave⟩ := run_settleArrow (c := c) h batch w₃
      rcases hsave _ (congrArg Prod.fst hend.symm) with ⟨e, he⟩ | hexc
      · cases he
      · cases hexc
    · cases hend
  · rw [hrun] at hend
    obtain rfl : w₂ = w₃ := congrArg Prod.snd hend
    obtain ⟨lost', hreported⟩ := hinterrupted.reported
    rw [hoffered.reported] at hreported
    have hmem : true ∈ List.replicate lost false := by
      rw [List.append_cancel_left hreported]
      exact List.mem_append_right _ List.mem_cons_self
    cases List.eq_of_mem_replicate hmem

/-- The letters of a routed run belong to the origins, and if all rows were captured then there is one
for each. -/
theorem RoutedRun.perm {w w₁ w' : RunWorld ℓ α χ} {r : Outcome Exc Unit}
    {letters : List (DLQRecord α χ)} (hrouted : c.RoutedRun batch outputs exc h w w₁)
    (hrun : (c.finalizeArrowBatchResult batch ⟨outputs.map ArrowOutput.row, none⟩).run h w = (r, w'))
    (hletters : deadLetters w'.trace = deadLetters w₁.trace ++ letters)
    (hlength : letters.length = outputs.length) :
    List.Perm (letters.map DLQRecord.rows) (c.originPairs batch outputs) := by
  have horigins : (c.originPairs batch outputs).length = outputs.length := List.length_map ..
  obtain ⟨w₂, hend⟩ := hrouted
  -- nothing is captured after the rows were offered
  have hsame : deadLetters w'.trace = deadLetters w₂.trace := by
    rcases hend with ⟨lost, -, hend⟩ | ⟨e, -, hend⟩
    · rw [hrun] at hend
      split at hend
      · obtain ⟨hsettle, -⟩ := run_settleArrow (c := c) h batch w₂
        rwa [← hend] at hsettle
      · exact congrArg (fun end' => deadLetters end'.2.trace) hend
    · exact congrArg (fun end' => deadLetters end'.2.trace) (hrun.symm.trans hend)
  rw [hsame] at hletters
  rcases hend with ⟨lost, hoffered, -⟩ | ⟨e, hinterrupted, -⟩
  · obtain ⟨letters', hletters', hsub, -⟩ := hoffered.letters
    obtain rfl : letters' = letters := List.append_cancel_left (hletters'.symm.trans hletters)
    refine hsub.perm_of_length_le ?_
    rw [horigins, List.length_map, hlength]
  · obtain ⟨letters', hletters', -, hlt⟩ := hinterrupted.letters
    obtain rfl : letters' = letters := List.append_cancel_left (hletters'.symm.trans hletters)
    omega

/-- Where every dead letter is taken, only rows that pair up are routed as they should be. -/
theorem RoutedRun.pairsUp (htakes : TakesLetters h) (hdlq : c.delivery.dlqSink = true)
    (hexc : exc.isException = true) {w w₁ : RunWorld ℓ α χ}
    (hfails : c.ArrowFails h w batch (some ⟨outputs.map ArrowOutput.row, none⟩)
      (.write exc (outputs.map ArrowOutput.row)) w₁)
    (hrouted : c.RoutedRun batch outputs exc h w w₁) : c.PairsUp batch outputs exc := by
  obtain ⟨routed, lost, w₂, hcapture, hoffered, rfl, heligible⟩ :=
    run_captureArrow_taken htakes hdlq outputs exc w₁
  have hrun := run_finalize_failedWrite hdlq hexc hfails
  rw [run_bind_returned h hcapture] at hrun
  unfold decideFate at hrun
  have hrows : (outputs.map ArrowOutput.row).length = outputs.length := List.length_map ..
  by_cases hlength : batch.rows.length = (outputs.map ArrowOutput.row).length
  · refine ⟨hrows.symm.trans hlength.symm, fun hexc => ?_⟩
    rw [if_neg (not_not_intro hlength), heligible hexc] at hrun
    obtain rfl : lost = 0 := of_decide_eq_true (heligible hexc)
    obtain ⟨letters, hletters, hsub, hcount⟩ := hoffered.letters
    have hpositions : (c.positionPairs batch outputs).length = outputs.length := by
      unfold positionPairs
      rw [List.length_map, List.length_zip, hlength, min_self, hrows]
    have hall : List.Perm (letters.map DLQRecord.rows) (c.positionPairs batch outputs) := by
      refine hsub.perm_of_length_le ?_
      rw [List.length_map]
      omega
    obtain ⟨hsettle, -⟩ := run_settleArrow (c := c) h batch w₂
    refine hall.symm.trans (hrouted.perm hrun ?_ (by omega))
    exact hsettle.trans hletters
  · rw [if_pos hlength] at hrun
    exact absurd hrun (hrouted.not_zipStrictError hoffered)

/-! ## When a failed write is routed -/

/-- Every write is rejected with the exception; nothing else goes wrong. -/
def rejectedWrite (exc : Exc) : Environment α χ
  | _, .await (.writeBatch _) => .error exc
  | _, .await (.writeArrowBatch _) => .error exc
  | t, o => undisturbed t o

omit [DecidableEq χ] in
theorem takesLetters_rejectedWrite (exc : Exc) :
    TakesLetters (rejectedWrite exc : Environment α χ) := fun _ => ⟨rfl, ⟨none, rfl⟩, fun _ => rfl⟩

omit [DecidableEq χ] in
/-- The batch fails at its write. -/
theorem arrowFails_rejectedWrite (exc : Exc) (houtputs : outputs ≠ []) (w : RunWorld ℓ α χ) :
    ∃ w₁, c.ArrowFails (rejectedWrite exc) w batch (some ⟨outputs.map ArrowOutput.row, none⟩)
      (.write exc (outputs.map ArrowOutput.row)) w₁ := by
  have hrows : arrowRows batch (some ⟨outputs.map ArrowOutput.row, none⟩) =
      some (outputs.map ArrowOutput.row) := by
    cases outputs with
    | nil => exact absurd rfl houtputs
    | cons output outputs => rfl
  have hfence : ∀ w : RunWorld ℓ α χ, ∃ w',
      (c.delivery.assertRunFenceActive).run (rejectedWrite exc) w = (.returned (), w') := by
    intro w
    unfold DeliveryEngine.assertRunFenceActive
    cases c.delivery.runFence with
    | false => exact ⟨w, rfl⟩
    | true => exact ⟨w.called (.await .validateFence) (.ok true), rfl⟩
  obtain ⟨w', hw'⟩ := hfence (w.mark (.finalizing batch))
  have hwrite : ∃ w₁, (c.writeArrowRows (outputs.map ArrowOutput.row)).run (rejectedWrite exc)
      (w.mark (.finalizing batch)) = (.raised exc, w₁) := by
    unfold writeArrowRows
    cases c.arrowNativeSink with
    | true =>
      exact ⟨w'.called (.await (.writeArrowBatch _)) (.error exc),
        run_bind_raised _ (run_bind_returned _ hw')⟩
    | false =>
      exact ⟨w'.called (.await (.writeBatch _)) (.error exc),
        run_bind_raised _ (run_bind_returned _ hw')⟩
  obtain ⟨w₁, hw₁⟩ := hwrite
  exact ⟨w₁, hrows, hw₁⟩

/-- With a dead-letter sink, the failed write of the rows that a chain has put out is routed as it
should be, whatever the environment, exactly when the rows pair up with the raw rows. -/
theorem failureRouted_iff (hdlq : c.delivery.dlqSink = true) (houtputs : outputs ≠ [])
    (hexc : exc.isException = true) :
    c.FailureRouted batch outputs exc ↔ c.PairsUp batch outputs exc := by
  constructor
  · intro hrouted
    obtain ⟨w₁, hfails⟩ := arrowFails_rejectedWrite (c := c) exc houtputs
      ⟨RunState.initial PipelineState.empty none, []⟩
    exact (hrouted _ _ _ hfails).pairsUp (takesLetters_rejectedWrite exc) hdlq hexc hfails
  · intro hpairs h w w₁ hfails
    exact hpairs.routedRun hdlq hexc hfails

omit [DecidableEq χ] in
/-- A chain that keeps every row in its place meets the condition. -/
theorem pairsUp_of_inPlace (row : Fin batch.rows.length → α) :
    c.PairsUp batch ((List.finRange batch.rows.length).map fun i => ⟨i, row i⟩) exc := by
  refine ⟨by rw [List.length_map, List.length_finRange], fun _ => List.Perm.of_eq ?_⟩
  have hrows : (List.finRange batch.rows.length).map batch.rows.get = batch.rows :=
    List.map_get_finRange batch.rows
  unfold positionPairs originPairs
  rw [List.map_map, List.map_map]
  nth_rewrite 1 [← hrows]
  rw [List.zip_map', List.map_map]
  rfl

end ExecutionCoordinator

/-- A lane with a dead-letter sink, before the write of the batch `arrowBatch`. -/
def arrowLane : ExecutionCoordinator ℕ ℕ := .standard (.standard true) []

/-- The start of a run of the batch lane. -/
def laneStart : RunWorld (PipelineState ℕ ℕ) ℕ ℕ := ⟨RunState.initial .empty none, []⟩

/-- A chain has put out both rows of the batch. -/
def bothRows : List (ArrowOutput arrowBatch.rows) := [⟨⟨0, by decide⟩, 10⟩, ⟨⟨1, by decide⟩, 20⟩]

/-- A chain has filtered out the first row of the batch. -/
def secondRow : List (ArrowOutput arrowBatch.rows) := [⟨⟨1, by decide⟩, 20⟩]

/-- The rejected write of both rows is routed as it should be. -/
theorem failureRouted_bothRows :
    arrowLane.FailureRouted arrowBatch bothRows (.runtimeError "rejected") :=
  (ExecutionCoordinator.failureRouted_iff rfl (List.cons_ne_nil _ _) rfl).mpr
    (ExecutionCoordinator.pairsUp_of_inPlace fun i => if i.val = 0 then 10 else 20)

/-- After the first row was filtered out, the second is shown to the dead-letter sink together with
the first, and the run stops with the error of `zip`. -/
theorem not_failureRouted_secondRow :
    ¬ arrowLane.FailureRouted arrowBatch secondRow (.runtimeError "rejected") ∧
      ((arrowLane.finalizeArrowBatchResult arrowBatch ⟨[20], none⟩).run
        (ExecutionCoordinator.rejectedWrite (.runtimeError "rejected")) laneStart).1 =
        .raised (DeliveryEngine.zipStrictError 2 1) := by
  refine ⟨fun hrouted => ?_, rfl⟩
  have hrun := hrouted (ExecutionCoordinator.rejectedWrite (.runtimeError "rejected")) laneStart _
    ⟨rfl, rfl⟩
  have hperm := hrun.perm rfl rfl rfl
  have hmem : (some 1, some 20) ∈ arrowLane.originPairs arrowBatch secondRow :=
    hperm.mem_iff.mp List.mem_cons_self
  exact absurd hmem (by decide)

end AgoraEtl
