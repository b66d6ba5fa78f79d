import AgoraEtl.Lanes.Pipeline

/-!
# The commit order of the pipelined batch lane

Batches that go through the pipelined stage are committed from `nextCommit` on, so in source order.
A batch that its prefix failed, or that its prefix left without rows, is finalized on the spot; it
overtakes the batches that are still pending in the stage.  As long as no batch is pending when that
happens, the finalized batches are a prefix of the stream, whatever the order in which the submitted
batches complete.
-/

namespace AgoraEtl

open Effect Program

variable {α χ ρ : Type}

/-- The batches finalized in a run, in their order. -/
def finalized (t : RunTrace α χ) : List (SourceBatch α χ) :=
  marked (fun | .finalizing batch => some batch | _ => none) t

/-- How many batches were pending each time a batch bypassed the pipelined stage. -/
def bypassed (t : RunTrace α χ) : List ℕ :=
  marked (fun | .bypassed pending => some pending | _ => none) t

/-- No batch may bypass pending ones. -/
def NoBypass (_ : RunTrace α χ) (e : Event (Call α χ) Call.Ret (Mark α χ)) : Prop :=
  ∀ pending, e = .mark (.bypassed pending) → pending = 0

/-- A finalized batch is the next one of the stream. -/
def FinalizesNext (batches : List (SourceBatch α χ)) (t : RunTrace α χ)
    (e : Event (Call α χ) Call.Ret (Mark α χ)) : Prop :=
  ∀ batch, e = .mark (.finalizing batch) → finalized t ++ [batch] <+: batches

/-- A trace along which every finalized batch is the next one has finalized a prefix of the stream. -/
theorem finalized_prefix {batches : List (SourceBatch α χ)} {t₀ t : RunTrace α χ}
    (h : Along (FinalizesNext batches) t₀ t) (ht₀ : finalized t₀ <+: batches) :
    finalized (t₀ ++ t) <+: batches := by
  induction t generalizing t₀ with
  | nil => rwa [List.append_nil]
  | cons e t ih =>
    have hstep : finalized (t₀ ++ [e]) <+: batches := by
      match e with
      | .called o r => simpa [finalized] using ht₀
      | .mark m =>
        cases m with
        | finalizing batch => simpa [finalized] using h.1 batch rfl
        | _ => simpa [finalized] using ht₀
    have hrest := ih h.2 hstep
    rwa [List.append_assoc] at hrest

section Rule

variable {batches : List (SourceBatch α χ)}

/-- Marks that finalize no batch keep what has been finalized. -/
theorem finalized_mark_of_ne {t : RunTrace α χ} {m : Mark α χ}
    (hm : ∀ batch, m ≠ .finalizing batch) : finalized (t ++ [.mark m]) = finalized t := by
  cases m with
  | finalizing batch => exact absurd rfl (hm batch)
  | _ => simp [finalized]

variable (batches) in
/-- Programs of the delivery engine finalize no batch. -/
theorem safe_finalized_frame {ℓ β : Type} {M : Mark α χ → Prop} (mayHang : Prop)
    (hM : ∀ m, M m → ∀ batch, m ≠ .finalizing batch) {p : Delivery ℓ α χ β}
    (hp : p.Within (deliveryFrame ℓ M)) (w₀ w : RunWorld ℓ α χ) :
    p.Safe (.alone NoBypass (FinalizesNext batches) mayHang)
      (fun _ _ w' => w'.state.queue = w.state.queue ∧ finalized w'.trace = finalized w.trace)
      (fun _ _ w' => w'.state.queue = w.state.queue ∧ finalized w'.trace = finalized w.trace)
      w₀ w := by
  refine safe_deliveryFrame (T := fun t => finalized t = finalized w.trace)
    (fun t m hm _ ht => ⟨fun batch hbatch => ?_, ?_⟩) (fun t o r _ ht => ⟨nofun, ?_⟩) hp rfl
  · exact absurd (by injection hbatch) (hM m hm batch)
  · rw [finalized_mark_of_ne (hM m hm), ht]
  · simpa [finalized] using ht

variable (batches) in
/-- Finalizing the next batch of the stream. -/
theorem safe_finalizes {ℓ : Type} {mayHang : Prop} {batch : SourceBatch α χ}
    {p : Delivery ℓ α χ Unit} (hp : Finalizes batch p) {w₀ w : RunWorld ℓ α χ}
    (hnext : finalized w.trace ++ [batch] <+: batches) :
    p.Safe (.alone NoBypass (FinalizesNext batches) mayHang)
      (fun _ _ w' => w'.state.queue = w.state.queue ∧
        finalized w'.trace = finalized w.trace ++ [batch])
      (fun _ _ w' => w'.state.queue = w.state.queue ∧
        finalized w'.trace = finalized w.trace ++ [batch]) w₀ w := by
  obtain ⟨deliver, rfl, hdeliver⟩ := hp
  rw [safe_bind, safe_note]
  refine fun _ => ⟨fun b hb => ?_, ?_⟩
  · cases hb
    exact hnext
  · have hmark : finalized (w.mark (.finalizing batch)).trace = finalized w.trace ++ [batch] := by
      simp [finalized]
    have hrest := safe_finalized_frame batches mayHang
      (M := Mark.IsDelivery) (fun m hm b hb => by rw [hb] at hm; exact hm) hdeliver w₀
      (w.mark (.finalizing batch))
    rw [hmark] at hrest
    exact hrest

variable {v : PipelinedVariant α χ ρ}

/-- The queue of a run state holds the objects of the lane. -/
theorem lane_eq_of_queue {ℓ : Type} {s s' : RunState ℓ α χ} (h : s'.queue = s.queue) :
    s'.lane = s.lane := congrArg QueueState.lane h

/-- Resolving the next batch of the stream finalizes it. -/
theorem safe_resolveTaken_next (hv : v.Framed) (streaming : Bool) (task : BatchTask)
    {batch : SourceBatch α χ} {w₀ w : RunWorld (PipelineState α χ) α χ}
    (hnext : finalized w.trace ++ [batch] <+: batches) :
    (v.resolveTaken streaming task batch).Safe (.alone NoBypass (FinalizesNext batches) True)
      (fun _ _ w' => w'.state.lane = w.state.lane ∧
        finalized w'.trace = finalized w.trace ++ [batch])
      (fun _ _ w' => w'.state.lane = w.state.lane) w₀ w := by
  unfold PipelinedVariant.resolveTaken PipelinedVariant.resolve
  rw [safe_bind, safe_attempt, safe_bind]
  have herror : ∀ e w₀ (w' : RunWorld (PipelineState α χ) α χ), w'.state.lane = w.state.lane →
      (do let s ← read; note (.finalizeRaised e streaming s.lane.pendingBatches.length); raise e :
        PipelineDelivery α χ Unit).Safe (.alone NoBypass (FinalizesNext batches) True)
        (fun _ _ w' => w'.state.lane = w.state.lane ∧
          finalized w'.trace = finalized w.trace ++ [batch])
        (fun _ _ w' => w'.state.lane = w.state.lane) w₀ w' := by
    intro e w₀ w' hlane
    rw [safe_bind, safe_read, safe_bind, safe_note]
    exact fun _ => ⟨nofun, hlane⟩
  refine (safe_finalized_frame _ _ (M := fun _ => False) (fun _ hm => hm.elim)
    (within_of_chain (hv.collect task)) w₀ w).mono
    (fun result w₁ w' hw' => ?_) fun e w₁ w' hw' => herror e w₁ w' (lane_eq_of_queue hw'.1)
  rw [← hw'.2] at hnext
  refine (safe_finalizes _ (hv.finalize batch result) hnext).mono (fun _ _ w'' hw'' => ?_)
    fun e w₁ w'' hw'' => herror e w₁ w'' (lane_eq_of_queue (hw''.1.trans hw'.1))
  exact ⟨lane_eq_of_queue (hw''.1.trans hw'.1), by rw [hw''.2, hw'.2]⟩

/-- Submitting the next batch of the stream, or finalizing it when no batch is pending. -/
theorem safe_submit_next (hv : v.Framed) {batch : SourceBatch α χ}
    {pending : List (SourceBatch α χ)} {w₀ w : RunWorld (PipelineState α χ) α χ}
    (hpending : w.state.lane.batches = pending)
    (hnext : finalized w.trace ++ pending ++ [batch] <+: batches) :
    (v.submit batch).Safe (.alone NoBypass (FinalizesNext batches) True)
      (fun r _ w' => w'.state.lane = w.state.lane ∧
        finalized w'.trace ++ (pending ++ (r.map fun _ => batch).toList) =
          finalized w.trace ++ pending ++ [batch])
      (fun _ _ w' => w'.state.lane = w.state.lane ∧ finalized w'.trace ++ pending <+: batches)
      w₀ w := by
  have hkept : finalized w.trace ++ pending <+: batches := (List.prefix_append _ _).trans hnext
  unfold PipelinedVariant.submit
  rw [safe_bind]
  refine (safe_finalized_frame _ _ (M := fun _ => False) (fun _ hm => hm.elim)
    (within_of_chain (hv.enter batch)) w₀ w).mono
    (fun entered w₁ w' hw' => ?_) fun e _ w' hw' => ?_
  · have hlane := lane_eq_of_queue hw'.1
    cases entered with
    | inr task => exact ⟨hlane, by rw [hw'.2]; simp⟩
    | inl result =>
      unfold PipelinedVariant.finalizeBypassed
      rw [safe_bind, safe_bind, safe_read, safe_bind, safe_note]
      refine fun hbypass => ⟨nofun, ?_⟩
      -- nothing is pending, so the batch is the next one to commit
      have hnil : pending = [] := by
        rw [← hpending, PipelineState.batches_eq_nil, ← hlane]
        exact List.length_eq_zero_iff.mp (hbypass _ rfl)
      subst hnil
      have hfinalized : finalized (w'.trace ++ [.mark (.bypassed w'.state.lane.pendingBatches.length)])
          = finalized w.trace := by
        rw [finalized_mark_of_ne (fun _ h => by cases h), hw'.2]
      refine (safe_finalizes batches (hv.finalize batch result) ?_).mono
        (fun _ _ w'' hw'' => ?_) fun e _ w'' hw'' => ?_
      · rw [World.mark_trace, hfinalized]
        simpa using hnext
      · refine ⟨(lane_eq_of_queue hw''.1).trans hlane, ?_⟩
        rw [hw''.2, World.mark_trace, hfinalized]
        simp
      · refine ⟨(lane_eq_of_queue hw''.1).trans hlane, ?_⟩
        rw [hw''.2, World.mark_trace, hfinalized]
        simpa using hnext
  · exact ⟨lane_eq_of_queue hw'.1, by rw [hw'.2]; exact hkept⟩

/-- Finalized and pending batches together are the batches consumed. -/
def orderRule (hv : v.Framed) (batches : List (SourceBatch α χ)) :
    PipelineRule v NoBypass (FinalizesNext batches) True batches where
  streaming consumed pending t := finalized t ++ pending = consumed ∧ consumed <+: batches
  draining _ pending t := finalized t ++ pending <+: batches
  raised _ _ := True
  draining_of_streaming h := by rw [h.1]; exact h.2
  raised_of_draining _ := trivial
  ensure_laneCall _ _ := nofun
  streaming_laneCall _ _ h := by simpa [finalized] using h
  draining_laneCall _ _ h := by simpa [finalized] using h
  raised_laneCall _ _ _ := trivial
  raised_cancel _ _ _ := trivial
  submit {consumed batch rest pending w₀ w} hbatches h hpending := by
    have hnext : consumed ++ [batch] <+: batches :=
      ⟨rest, by rw [hbatches, List.append_assoc]; rfl⟩
    obtain ⟨hconsumed, -⟩ := h
    refine (safe_submit_next hv hpending (by rwa [hconsumed])).mono (fun r _ w' hw' => ?_)
      fun _ _ _ he => he
    rw [hconsumed] at hw'
    exact ⟨hw'.1, hw'.2, hnext⟩
  resolve_streaming consumed task batch pending w₀ w h _ := by
    have hnext : finalized w.trace ++ [batch] <+: batches := by
      refine List.IsPrefix.trans ⟨pending, ?_⟩ h.2
      rw [← h.1, List.append_assoc]
      rfl
    refine (safe_resolveTaken_next hv true task hnext).mono (fun _ _ w' hw' => ?_)
      fun e _ w' hw' => ⟨hw', trivial, fun _ _ => ⟨trivial, fun _ => trivial⟩⟩
    refine ⟨hw'.1, ?_, h.2⟩
    rw [hw'.2, List.append_assoc]
    exact h.1
  resolve_draining _ task batch pending w₀ w h _ := by
    have hnext : finalized w.trace ++ [batch] <+: batches := by
      refine List.IsPrefix.trans ⟨pending, ?_⟩ h
      rw [List.append_assoc]
      rfl
    refine (safe_resolveTaken_next hv false task hnext).mono (fun _ _ w' hw' => ?_)
      fun e _ w' hw' => ⟨hw', trivial⟩
    refine ⟨hw'.1, ?_⟩
    change finalized w'.trace ++ pending <+: batches
    rw [hw'.2, List.append_assoc]
    exact h

end Rule

section Main

/-- Running a framed variant finalizes a prefix of the stream. -/
theorem finalized_runPipelined {v : PipelinedVariant α χ ρ} (hv : v.Framed) {fuel limit : ℕ}
    (hlimit : 0 < limit) (batches : List (SourceBatch α χ)) {w₀ w : RunWorld (PipelineState α χ) α χ}
    (hlane : w.state.lane = .empty) (hstart : finalized w.trace = []) :
    (v.runPipelined fuel limit batches).Safe (.alone NoBypass (FinalizesNext batches) True)
      (fun _ _ _ => True) (fun _ _ _ => True) w₀ w :=
  ((orderRule hv batches).safe_runPipelined hlimit (.inl trivial) hlane
    ⟨by rw [hstart]; rfl, List.nil_prefix⟩).mono (fun _ _ _ _ => trivial) fun _ _ _ _ => trivial

variable [DecidableEq α] [DecidableEq χ] (c : ExecutionCoordinator α χ)

/-- If no batch bypasses the pipelined stage while others are pending in it, the batches are
finalized in source order, in both variants and whatever the order in which they complete. -/
theorem finalized_prefix_of_bypassed (fuel : ℕ) (stage : PipelinedStage)
    (batches : List (SourceBatch α χ)) (h : Environment α χ) (lastSaved : Option χ)
    (hbypass : ∀ pending ∈ bypassed
      (runFrom h .empty lastSaved (c.runPipelinedBatches fuel stage batches)).2.trace,
        pending = 0) :
    finalized (runFrom h .empty lastSaved (c.runPipelinedBatches fuel stage batches)).2.trace <+:
      batches := by
  have hlimit : 0 < c.stageLimit stage := le_max_left 1 _
  have hflush : ∀ w₀ w : RunWorld (PipelineState α χ) α χ,
      (hotFlush : PipelineDelivery α χ Unit).Safe (.alone NoBypass (FinalizesNext batches) True)
        (fun _ _ _ => True) (fun _ _ _ => True) w₀ w := fun _ _ => trivial
  have hsafe : (c.runPipelinedBatches fuel stage batches).Safe
      (.alone NoBypass (FinalizesNext batches) True) (fun _ _ _ => True) (fun _ _ _ => True)
      ⟨RunState.initial .empty lastSaved, []⟩ ⟨RunState.initial .empty lastSaved, []⟩ := by
    unfold ExecutionCoordinator.runPipelinedBatches
    split
    · split
      · exact trivial
      · rw [safe_bind]
        exact (finalized_runPipelined (framed_arrowVariant c stage) hlimit batches rfl rfl).mono
          (fun _ _ _ _ => hflush _ _) fun _ _ _ _ => trivial
    · rw [safe_bind]
      exact (finalized_runPipelined (framed_listVariant c stage) hlimit batches rfl rfl).mono
        (fun _ _ _ _ => hflush _ _) fun _ _ _ _ => trivial
  obtain ⟨t, ht, hpost⟩ := hsafe.run_alone h
  have hassume : Along NoBypass [] t := by
    refine along_iff.mpr fun t₁ e t₂ htrace pending he => hbypass pending ?_
    refine (mem_marked _).mpr ⟨.bypassed pending, ?_, rfl⟩
    unfold runFrom
    rw [ht, htrace, he]
    simp
  unfold runFrom
  rw [ht]
  exact finalized_prefix (hpost hassume).1 List.nil_prefix

end Main

/-! ## A batch that overtakes another -/

/-- A batch middleware in front of a process-pool stage that takes two batches at once. -/
def pipelinedChain : MiddlewareChain := [⟨"parse", .batch, 1⟩, ⟨"score", .processBatch, 2⟩]

/-- The stage of `pipelinedChain`. -/
def scoreStage : PipelinedStage := ⟨1, ⟨"score", .processBatch, 2⟩⟩

/-- The two batches of the stream. -/
def twoBatches : List (SourceBatch ℕ ℕ) := [⟨[1], some 10⟩, ⟨[2], some 20⟩]

/-- The worker returns what it got, and submitted batches are never done before they are awaited. -/
def slowWorker : Environment ℕ ℕ
  | _, .await (.awaitBatch _) => .ok [some 1]
  | _, .futureDone _ => false
  | t, o => undisturbed t o

/-- The worker is slow, and the middleware in front of it fails on the second batch. -/
def failingPrefix : Environment ℕ ℕ
  | _, .await (.processBatch 0 [some 2]) => .error (.runtimeError "cannot parse batch")
  | t, o => slowWorker t o

/-- Two batches through the stage: none bypasses it. -/
theorem finalized_prefix_slowWorker :
    finalized (runFrom slowWorker .empty none
      ((ExecutionCoordinator.standard (.standard true) pipelinedChain).runPipelinedBatches 5
        scoreStage twoBatches)).2.trace <+: twoBatches :=
  finalized_prefix_of_bypassed _ 5 scoreStage twoBatches slowWorker none (by decide)

/-- The second batch fails before the stage and is finalized while the first is pending in it. -/
theorem not_finalized_prefix_failingPrefix :
    ¬ finalized (runFrom failingPrefix .empty none
      ((ExecutionCoordinator.standard (.standard true) pipelinedChain).runPipelinedBatches 5
        scoreStage twoBatches)).2.trace <+: twoBatches := by
  decide

end AgoraEtl
