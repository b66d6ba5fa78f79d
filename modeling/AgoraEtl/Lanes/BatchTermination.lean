import AgoraEtl.Lanes.BatchOrder

/-!
# The pipelined batch lane after a failed batch

When finalizing a batch raises, the batch has been taken out of the dictionary but `nextCommit` still
has its number.  The lane then ends only if it does not go on to drain: the exception has to be one
on which pending work is aborted, or the failure has to happen while the lane drains anyway, or no
other batch may be pending.  Under this condition the lane ends on every failure, with the exception
of that failure and without touching a further batch; otherwise the loop that drains the pending
batches never ends.
-/

namespace AgoraEtl

open Effect Program

variable {α χ ρ : Type}

/-- Finalizing a batch raised; so many other batches were pending. -/
structure FinalizeFailure : Type where
  exc : Exc
  streaming : Bool
  pending : ℕ
  deriving DecidableEq

/-- The lane does not go on to drain pending batches after the failure. -/
def FinalizeFailure.Ends (f : FinalizeFailure) : Prop :=
  f.streaming = true → mustAbortPendingWork f.exc = true ∨ f.pending = 0

instance (f : FinalizeFailure) : Decidable f.Ends :=
  inferInstanceAs (Decidable (f.streaming = true → _))

/-- The failures in a run. -/
def finalizeFailures (t : RunTrace α χ) : List FinalizeFailure :=
  marked (fun
    | .finalizeRaised exc streaming pending => some ⟨exc, streaming, pending⟩
    | _ => none) t

/-- The exception of a call that cancels pending batches. -/
def cancelError : Event (Call α χ) Call.Ret (Mark α χ) → Option Exc
  | .called (.await a) (.error e) => if a.isCancel then some e else none
  | _ => none

/-- The event is a call of the lane itself: no record or batch is touched. -/
def isLaneEvent : Event (Call α χ) Call.Ret (Mark α χ) → Bool
  | .called o _ => o.isLane
  | .mark _ => false

/-- The lane ends after each failure, and cancelling pending batches raises nothing. -/
def EndsAfterFailure (_ : RunTrace α χ) (e : Event (Call α χ) Call.Ret (Mark α χ)) : Prop :=
  (∀ exc streaming pending, e = .mark (.finalizeRaised exc streaming pending) →
    FinalizeFailure.Ends ⟨exc, streaming, pending⟩) ∧ cancelError e = none

/-- Only calls of the lane itself follow a failure. -/
def QuietAfterFailure (t : RunTrace α χ) (e : Event (Call α χ) Call.Ret (Mark α χ)) : Prop :=
  finalizeFailures t = [] ∨ isLaneEvent e = true

section Rule

variable {v : PipelinedVariant α χ ρ} {batches : List (SourceBatch α χ)} {mayHang : Prop}

theorem finalizeFailures_mark_of_ne {t : RunTrace α χ} {m : Mark α χ}
    (hm : ∀ exc streaming pending, m ≠ .finalizeRaised exc streaming pending) :
    finalizeFailures (t ++ [.mark m]) = finalizeFailures t := by
  cases m with
  | finalizeRaised exc streaming pending => exact absurd rfl (hm exc streaming pending)
  | _ => simp [finalizeFailures]

@[simp] theorem finalizeFailures_called (t : RunTrace α χ) (o : Call α χ) (r : o.Ret) :
    finalizeFailures (t ++ [.called o r]) = finalizeFailures t := by simp [finalizeFailures]

/-- Programs of the delivery engine leave no failure of a batch. -/
theorem safe_quiet_frame {β : Type} {M : Mark α χ → Prop}
    (hM : ∀ m, M m → ∀ exc streaming pending, m ≠ .finalizeRaised exc streaming pending)
    {p : PipelineDelivery α χ β} (hp : p.Within (deliveryFrame _ M))
    {w₀ w : RunWorld (PipelineState α χ) α χ} (hw : finalizeFailures w.trace = []) :
    p.Safe (.alone EndsAfterFailure QuietAfterFailure mayHang)
      (fun _ _ w' => w'.state.queue = w.state.queue ∧ finalizeFailures w'.trace = [])
      (fun _ _ w' => w'.state.queue = w.state.queue ∧ finalizeFailures w'.trace = []) w₀ w :=
  safe_deliveryFrame (T := fun t => finalizeFailures t = [])
    (fun _ m hm _ ht => ⟨.inl ht, by rw [finalizeFailures_mark_of_ne (hM m hm), ht]⟩)
    (fun _ _ _ _ ht => ⟨.inl ht, by rw [finalizeFailures_called, ht]⟩) hp hw

/-- Finalizing a batch leaves no failure mark of its own. -/
theorem safe_quiet_finalizes {batch : SourceBatch α χ} {p : PipelineDelivery α χ Unit}
    (hp : Finalizes batch p) {w₀ w : RunWorld (PipelineState α χ) α χ}
    (hw : finalizeFailures w.trace = []) :
    p.Safe (.alone EndsAfterFailure QuietAfterFailure mayHang)
      (fun _ _ w' => w'.state.queue = w.state.queue ∧ finalizeFailures w'.trace = [])
      (fun _ _ w' => w'.state.queue = w.state.queue ∧ finalizeFailures w'.trace = []) w₀ w := by
  obtain ⟨deliver, rfl, hdeliver⟩ := hp
  refine safe_quiet_frame (M := fun m => m = .finalizing batch ∨ m.IsDelivery)
    (fun m hm exc streaming pending h => ?_) ?_ hw
  · rcases hm with rfl | hm
    · cases h
    · rw [h] at hm
      exact hm
  · exact within_bind (within_note (.inl rfl)) fun _ => within_of_marks (fun _ => .inr) hdeliver

/-- Resolving a batch: an exception is noted as the failure of the batch. -/
theorem safe_quiet_resolveTaken (hv : v.Framed) (streaming : Bool) (task : BatchTask)
    (batch : SourceBatch α χ) {w₀ w : RunWorld (PipelineState α χ) α χ}
    (hw : finalizeFailures w.trace = []) :
    (v.resolveTaken streaming task batch).Safe (.alone EndsAfterFailure QuietAfterFailure mayHang)
      (fun _ _ w' => w'.state.lane = w.state.lane ∧ finalizeFailures w'.trace = [])
      (fun e _ w' => w'.state.lane = w.state.lane ∧
        finalizeFailures w'.trace = [⟨e, streaming, w.state.lane.pendingBatches.length⟩] ∧
        FinalizeFailure.Ends ⟨e, streaming, w.state.lane.pendingBatches.length⟩) w₀ w := by
  unfold PipelinedVariant.resolveTaken
  rw [safe_bind, safe_attempt]
  have hresolve : (v.resolve task batch).Safe (.alone EndsAfterFailure QuietAfterFailure mayHang)
      (fun _ _ w' => w'.state.queue = w.state.queue ∧ finalizeFailures w'.trace = [])
      (fun _ _ w' => w'.state.queue = w.state.queue ∧ finalizeFailures w'.trace = []) w₀ w := by
    unfold PipelinedVariant.resolve
    rw [safe_bind]
    refine (safe_quiet_frame (M := fun _ => False) (fun _ hm => hm.elim)
    (within_of_chain (hv.collect task)) hw).mono
      (fun result w₁ w' hw' => ?_) fun _ _ _ he => he
    refine (safe_quiet_finalizes (hv.finalize batch result) hw'.2).mono
      (fun _ _ w'' hw'' => ⟨hw''.1.trans hw'.1, hw''.2⟩)
      fun _ _ w'' hw'' => ⟨hw''.1.trans hw'.1, hw''.2⟩
  refine hresolve.mono (fun _ _ w' hw' => ⟨lane_eq_of_queue hw'.1, hw'.2⟩) fun e w₁ w' hw' => ?_
  have hlane := lane_eq_of_queue hw'.1
  dsimp only
  rw [safe_bind, safe_read, safe_bind, safe_note, hlane]
  refine fun hassume => ⟨.inl hw'.2, hlane, ?_, hassume.1 _ _ _ rfl⟩
  have htrace := hw'.2
  unfold finalizeFailures at htrace ⊢
  simp [htrace]

/-- No batch has failed yet, and once one has, its exception leaves the lane. -/
def terminationRule (hv : v.Framed) (batches : List (SourceBatch α χ)) :
    PipelineRule v EndsAfterFailure QuietAfterFailure False batches where
  streaming _ _ t := finalizeFailures t = []
  draining _ _ t := finalizeFailures t = []
  raised e t := ∀ f ∈ finalizeFailures t, f.exc = e
  draining_of_streaming h := h
  raised_of_draining h := by rw [h]; exact nofun
  ensure_laneCall h _ := .inr h
  streaming_laneCall _ _ h := by rwa [finalizeFailures_called]
  draining_laneCall _ _ h := by rwa [finalizeFailures_called]
  raised_laneCall _ _ h := by rwa [finalizeFailures_called]
  raised_cancel ha hassume _ := by
    have hnone := hassume.2
    simp [cancelError, ha] at hnone
  submit {consumed batch rest pending w₀ w} hbatches h hpending := by
    unfold PipelinedVariant.submit
    rw [safe_bind]
    refine (safe_quiet_frame (M := fun _ => False) (fun _ hm => hm.elim)
    (within_of_chain (hv.enter batch)) h).mono
      (fun entered w₁ w' hw' => ?_) fun e _ w' hw' => ⟨lane_eq_of_queue hw'.1, hw'.2⟩
    cases entered with
    | inr task => exact ⟨lane_eq_of_queue hw'.1, hw'.2⟩
    | inl result =>
      unfold PipelinedVariant.finalizeBypassed
      rw [safe_bind, safe_bind, safe_read, safe_bind, safe_note]
      refine fun _ => ⟨.inl hw'.2, ?_⟩
      refine (safe_quiet_finalizes (hv.finalize batch result) (w := w'.mark _) ?_).mono
        (fun _ _ w'' hw'' => ⟨lane_eq_of_queue (hw''.1.trans hw'.1), hw''.2⟩)
        fun _ _ w'' hw'' => ⟨lane_eq_of_queue (hw''.1.trans hw'.1), hw''.2⟩
      rw [World.mark_trace, finalizeFailures_mark_of_ne (fun _ _ _ h => by cases h)]
      exact hw'.2
  resolve_streaming consumed task batch pending w₀ w h hpending := by
    refine (safe_quiet_resolveTaken hv true task batch h).mono (fun _ _ w' hw' => hw')
      fun e _ w' hw' => ⟨hw'.1, ?_, fun habort hnil => ?_⟩
    · rw [hw'.2.1]
      simp
    · rcases hw'.2.2 rfl with habort' | hempty
      · rw [habort] at habort'
        cases habort'
      · refine absurd ?_ hnil
        rw [← hpending, PipelineState.batches_eq_nil]
        exact List.length_eq_zero_iff.mp hempty
  resolve_draining _ task batch pending w₀ w h _ := by
    refine (safe_quiet_resolveTaken hv false task batch h).mono (fun _ _ w' hw' => hw')
      fun e _ w' hw' => ⟨hw'.1, fun f hf => ?_⟩
    rw [hw'.2.1, List.mem_singleton] at hf
    rw [hf]

end Rule

section Main

variable [DecidableEq α] [DecidableEq χ] (c : ExecutionCoordinator α χ)

/-- The pipelined lane is safe: it does not hang, and if a batch has failed it raises the exception of
that failure. -/
theorem safe_runPipelinedBatches (fuel : ℕ) (stage : PipelinedStage)
    (batches : List (SourceBatch α χ)) (hfuel : batches.length < fuel)
    (w₀ w : RunWorld (PipelineState α χ) α χ) (hlane : w.state.lane = .empty)
    (hstart : finalizeFailures w.trace = []) :
    (c.runPipelinedBatches fuel stage batches).Safe (.alone EndsAfterFailure QuietAfterFailure False)
      (fun _ _ w' => finalizeFailures w'.trace = [])
      (fun e _ w' => ∀ f ∈ finalizeFailures w'.trace, f.exc = e) w₀ w := by
  have hlimit : 0 < c.stageLimit stage := le_max_left 1 _
  have hvariant : ∀ {ρ : Type} (v : PipelinedVariant α χ ρ), v.Framed →
      (v.runPipelined fuel (c.stageLimit stage) batches).Safe
        (.alone EndsAfterFailure QuietAfterFailure False)
        (fun _ _ w' => finalizeFailures w'.trace = [])
        (fun e _ w' => ∀ f ∈ finalizeFailures w'.trace, f.exc = e) w₀ w := fun v hv =>
    (terminationRule hv batches).safe_runPipelined hlimit (.inr hfuel) hlane hstart
  unfold ExecutionCoordinator.runPipelinedBatches
  split
  · split
    · rw [raise_bind, safe_raise, hstart]
      exact nofun
    · rw [safe_bind]
      exact (hvariant _ (framed_arrowVariant c stage)).mono (fun _ _ _ h => h) fun _ _ _ h => h
  · rw [safe_bind]
    exact (hvariant _ (framed_listVariant c stage)).mono (fun _ _ _ h => h) fun _ _ _ h => h

/-- If the lane does not drain pending batches after a failure and cancelling them raises nothing,
then the run ends, and after a failure it raises the exception of that failure and does nothing more
than the lane's own calls, so that no further batch is written or checkpointed. -/
theorem runPipelinedBatches_ends (fuel : ℕ) (stage : PipelinedStage)
    (batches : List (SourceBatch α χ)) (hfuel : batches.length < fuel) (h : Environment α χ)
    (lastSaved : Option χ) {r : Outcome Exc Unit} {w : RunWorld (PipelineState α χ) α χ}
    (hrun : runFrom h .empty lastSaved (c.runPipelinedBatches fuel stage batches) = (r, w))
    (hends : ∀ f ∈ finalizeFailures w.trace, f.Ends)
    (hcancel : w.trace.filterMap cancelError = []) :
    r ≠ .hung ∧ ∀ t₁ exc streaming pending t₂,
      w.trace = t₁ ++ .mark (.finalizeRaised exc streaming pending) :: t₂ →
        r = .raised exc ∧ ∀ e ∈ t₂, isLaneEvent e = true := by
  have hsafe := safe_runPipelinedBatches c fuel stage batches hfuel
    ⟨RunState.initial .empty lastSaved, []⟩ ⟨RunState.initial .empty lastSaved, []⟩ rfl rfl
  obtain ⟨t, ht, hpost⟩ := hsafe.run_alone h
  unfold runFrom at hrun
  rw [hrun] at ht hpost
  rw [List.nil_append] at ht
  subst ht
  have hassume : Along EndsAfterFailure [] w.trace := by
    refine along_iff.mpr fun t₁ e t₂ htrace => ⟨fun exc streaming pending he => ?_, ?_⟩
    · refine hends _ ((mem_marked _).mpr ⟨.finalizeRaised exc streaming pending, ?_, rfl⟩)
      rw [htrace, he]
      simp
    · rw [List.filterMap_eq_nil_iff] at hcancel
      exact hcancel e (by rw [htrace]; simp)
  obtain ⟨hensure, hend⟩ := hpost hassume
  refine ⟨fun hhung => ?_, fun t₁ exc streaming pending t₂ htrace => ⟨?_, fun e he => ?_⟩⟩
  · subst hhung
    exact hend
  · have hmem : (⟨exc, streaming, pending⟩ : FinalizeFailure) ∈ finalizeFailures w.trace := by
      refine (mem_marked _).mpr ⟨.finalizeRaised exc streaming pending, ?_, rfl⟩
      rw [htrace]
      simp
    cases r with
    | returned u =>
      obtain ⟨_, hnone⟩ := hend
      rw [hnone] at hmem
      cases hmem
    | raised e =>
      obtain ⟨_, hall⟩ := hend
      have hexc : exc = e := hall _ hmem
      rw [hexc]
    | hung => exact hend.elim
  · -- the failure stands before the event in the trace
    obtain ⟨t₃, t₄, rfl⟩ := List.append_of_mem he
    have hquiet := (along_iff.mp hensure) (t₁ ++ .mark (.finalizeRaised exc streaming pending) :: t₃)
      e t₄ (by rw [htrace]; simp)
    refine hquiet.resolve_left fun hnone => ?_
    simp [finalizeFailures] at hnone

end Main

/-- Neither the writer nor the dead-letter sink takes anything. -/
def refusedBatches : Environment ℕ ℕ
  | _, .await (.writeBatch _) => .error (.runtimeError "disk full")
  | _, .await (.dlqWrite _) => .error (.runtimeError "disk full")
  | _, .await (.awaitBatch _) => .ok [some 1]
  | t, o => undisturbed t o

/-- The lane of three batches, of which two are in flight at once. -/
def refusedRun : Outcome Exc Unit × RunWorld (PipelineState ℕ ℕ) ℕ ℕ :=
  runFrom refusedBatches .empty none
    ((ExecutionCoordinator.standard (.standard true) pipelinedChain).runPipelinedBatches 4
      scoreStage (twoBatches ++ [⟨[3], some 30⟩]))

/-- The first batch fails while the second one is pending, and the lane ends on that failure. -/
theorem runPipelinedBatches_ends_refused :
    finalizeFailures refusedRun.2.trace =
        [⟨.recordDelivery (.runtimeError "disk full"), true, 1⟩] ∧
      refusedRun.1 ≠ .hung ∧ ∀ t₁ exc streaming pending t₂,
        refusedRun.2.trace = t₁ ++ .mark (.finalizeRaised exc streaming pending) :: t₂ →
          refusedRun.1 = .raised exc ∧ ∀ e ∈ t₂, isLaneEvent e = true := by
  have hends : ∀ f ∈ finalizeFailures refusedRun.2.trace, f.Ends := by decide +kernel
  have hcancel : refusedRun.2.trace.filterMap cancelError = [] := by decide +kernel
  have hrun : runFrom refusedBatches .empty none
      ((ExecutionCoordinator.standard (.standard true) pipelinedChain).runPipelinedBatches 4
        scoreStage (twoBatches ++ [⟨[3], some 30⟩])) = (refusedRun.1, refusedRun.2) := rfl
  exact ⟨by decide +kernel,
    runPipelinedBatches_ends _ 4 scoreStage _ (by decide) refusedBatches none hrun hends hcancel⟩

/-! ## A lane that never ends -/

/-- Draining a lane that has lost its next batch while others are pending never ends, as long as the
lane's own calls go well. -/
theorem drainPending_hangs (v : PipelinedVariant α χ ρ) {h : Environment α χ}
    (hdrain : ∀ t, h t (.await .drainPipelinedBatches) = .ok ())
    (hsleep : ∀ t, h t (.await .sleep) = .ok ()) {w : RunWorld (PipelineState α χ) α χ}
    (hstuck : w.state.lane.Stuck) (hpending : w.state.lane.pendingBatches ≠ []) (fuel : ℕ) :
    ((v.drainPending fuel).run h w).1 = .hung := by
  have hsafe : (iterate (v.drainRound fuel) fuel ()).Safe (.answered h True)
      (fun _ _ _ => False) (fun _ _ _ => False) w w := by
    refine PipelinedVariant.safe_drain_stuck trivial (P := fun _ => True) (Q := fun _ _ => False)
      (fun a ha t r hanswer _ => ⟨trivial, ?_⟩) hstuck hpending trivial
    have hr := hanswer _ r rfl
    rcases ha with rfl | rfl
    · rw [hdrain] at hr
      rw [hr]
      trivial
    · rw [hsleep] at hr
      rw [hr]
      trivial
  have hend := hsafe.run_answered
  unfold PipelinedVariant.drainPending
  rw [run_bind, run_attempt]
  cases hr : (iterate (v.drainRound fuel) fuel ()).run h w with
  | mk r w' =>
    rw [hr] at hend
    cases r with
    | returned u => exact hend.elim fun _ h => h.elim
    | raised e => exact hend.elim fun _ h => h.elim
    | hung => rfl

/-- The writer has lost its fence. -/
def lostFence : Environment ℕ ℕ
  | _, .await (.writeBatch _) => .error (.fenceLost "lease lost")
  | _, .await (.awaitBatch _) => .ok [some 1]
  | t, o => undisturbed t o

/-- The lane of the two batches. -/
def twoBatchesRun (fuel : ℕ) (batches : List (SourceBatch ℕ ℕ)) :
    Outcome Exc Unit × RunWorld (PipelineState ℕ ℕ) ℕ ℕ :=
  runFrom lostFence .empty none
    ((ExecutionCoordinator.standard (.standard true) pipelinedChain).runPipelinedBatches fuel
      scoreStage batches)

/-- The list variant of the lane of the two batches. -/
def scoreVariant : PipelinedVariant ℕ ℕ (BatchProcessResult ℕ) :=
  (ExecutionCoordinator.standard (.standard true) pipelinedChain).listVariant scoreStage

/-- The streaming loop of the two batches loses its fence. -/
theorem streamBatch_lostFence (n : ℕ) :
    ((forEach (scoreVariant.streamBatch (n + 1) 2) twoBatches).run lostFence
      ⟨RunState.initial .empty none, []⟩).1 = .raised (.fenceLost "lease lost") := rfl

/-- The first batch is then lost, and the second one is still pending. -/
theorem streamBatch_lostFence_lane (n : ℕ) :
    ((forEach (scoreVariant.streamBatch (n + 1) 2) twoBatches).run lostFence
      ⟨RunState.initial .empty none, []⟩).2.state.lane =
        ⟨[(1, ⟨1, 1⟩, ⟨[2], some 20⟩)], 2, 0⟩ := rfl

/-- With a second batch pending behind the first the lane never ends, however long it runs. -/
theorem runPipelinedBatches_hangs_lostFence :
    ¬ ∃ fuel, (twoBatchesRun fuel twoBatches).1 ≠ .hung := by
  rintro ⟨fuel, hends⟩
  apply hends
  cases fuel with
  | zero => rfl
  | succ n =>
    have hraised := streamBatch_lostFence n
    have hlane := streamBatch_lostFence_lane n
    change ((scoreVariant.runPipelined (n + 1) 2 twoBatches >>= fun _ => hotFlush).run lostFence
      ⟨RunState.initial .empty none, []⟩).1 = .hung
    unfold PipelinedVariant.runPipelined
    rw [run_bind, run_bind, run_attempt]
    cases hrun : (forEach (scoreVariant.streamBatch (n + 1) 2) twoBatches).run lostFence
      ⟨RunState.initial .empty none, []⟩ with
    | mk r w =>
    rw [hrun] at hraised hlane
    obtain rfl : r = .raised (.fenceLost "lease lost") := hraised
    have hhang := drainPending_hangs scoreVariant (h := lostFence) (fun _ => rfl) (fun _ => rfl)
      (w := w) (by rw [hlane]; simp [PipelineState.Stuck]) (by rw [hlane]; simp) (n + 1)
    simp only [Outcome.caught, mustAbortPendingWork, Bool.false_eq_true, if_false, run_bind]
    cases hdrain : (scoreVariant.drainPending (n + 1)).run lostFence w with
    | mk r w' =>
    rw [hdrain] at hhang
    obtain rfl : r = .hung := hhang
    rfl

end AgoraEtl
