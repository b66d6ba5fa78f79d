import AgoraEtl.Lanes.Backpressure
import AgoraEtl.Lanes.BufferedRule

/-!
# Records in flight

The buffered lane pulls the next record only when fewer records are pending than the limit of the
moment allows.  The limit is moved by the controller inside the loop that waits for the number of
pending records to fall below it.  The answers of the controller stay within its bounds, and each round
of the loop takes a record out of the deque, so that the loop does not depend on where the limit goes.
-/

namespace AgoraEtl

open Effect Program

variable {α χ : Type}

/-! ### The controller in the environment -/

section Environment

variable (controller : AdaptiveBackpressureController) (metrics : RunTrace α χ → RuntimeMetrics)

/-- What an event does to the controller; `past` are the events before it, which have led to the
metrics of the moment. -/
def controllerStep (past : RunTrace α χ × Option AdaptiveBackpressureController)
    (e : Event (Call α χ) Call.Ret (Mark α χ)) :
    RunTrace α χ × Option AdaptiveBackpressureController :=
  (past.1 ++ [e],
    match e with
    | .called (.observeLimit pendingCount) _ => do
      let controller ← past.2
      let (controller, _) ← controller.observe (metrics past.1) pendingCount
      pure controller
    | _ => past.2)

/-- The controller after the events of a trace. -/
def controllerAfter (t : RunTrace α χ) : Option AdaptiveBackpressureController :=
  (t.foldl (controllerStep metrics) ([], some controller)).2

/-- The environment in which `observe` is that of the controller. -/
def controlled (h : Environment α χ) : Environment α χ
  | t, .observeLimit pendingCount =>
    match (do
      let controller ← controllerAfter controller metrics t
      controller.observe (metrics t) pendingCount) with
    | some (controller, _) => controller.currentLimit.toNat
    | none => 0
  | t, o => h t o

variable {controller}

/-- Whatever happens, the controller stays within its bounds. -/
theorem controllerAfter_bounded (hcontroller : controller.Bounded) (t : RunTrace α χ) :
    ∃ c, controllerAfter controller metrics t = some c ∧ c.Bounded ∧ controller.SameRange c := by
  induction t using List.reverseRecOn with
  | nil => exact ⟨controller, rfl, hcontroller, rfl, rfl⟩
  | append_singleton t e ih =>
    obtain ⟨c, hc, hbounded, hmin, hmax⟩ := ih
    unfold controllerAfter at hc ⊢
    rw [List.foldl_append, List.foldl_cons, List.foldl_nil]
    generalize t.foldl (controllerStep metrics) ([], some controller) = past at hc ⊢
    cases e with
    | mark m => exact ⟨c, hc, hbounded, hmin, hmax⟩
    | called o r =>
      cases o with
      | observeLimit pendingCount =>
        obtain ⟨c', metrics', hobserve, hbounded', hmin', hmax'⟩ :=
          hbounded.observe (metrics past.1) pendingCount
        refine ⟨c', ?_, hbounded', hmin'.trans hmin, hmax'.trans hmax⟩
        simp only [controllerStep, hc, Option.bind_eq_bind, Option.bind_some, hobserve]
        rfl
      | _ => exact ⟨c, hc, hbounded, hmin, hmax⟩

/-- The answer to `observe` is within the bounds of the controller. -/
theorem controlled_observeLimit (hcontroller : controller.Bounded) (h : Environment α χ)
    (t : RunTrace α χ) (pendingCount : ℕ) :
    controller.minLimit.toNat ≤ (controlled controller metrics h t (.observeLimit pendingCount) : ℕ) ∧
      (controlled controller metrics h t (.observeLimit pendingCount) : ℕ) ≤
        controller.maxLimit.toNat := by
  obtain ⟨c, hc, hbounded, hmin, hmax⟩ := controllerAfter_bounded metrics hcontroller t
  obtain ⟨c', metrics', hobserve, hbounded', hmin', hmax'⟩ :=
    hbounded.observe (metrics t) pendingCount
  have hanswer : controlled controller metrics h t (.observeLimit pendingCount) =
      c'.currentLimit.toNat := by
    simp only [controlled, hc, Option.bind_eq_bind, Option.bind_some, hobserve]
  have hone := hbounded'.one_le_min
  have hcurrent := hbounded'.min_le_current
  have hle := hbounded'.current_le_max
  rw [hanswer]
  exact ⟨Int.toNat_le_toNat (by omega), Int.toNat_le_toNat (by omega)⟩

end Environment

/-! ### The loop of the lane -/

/-- The answers of the controller are within the range, and nobody else touches the objects of the
lane. -/
def limitContract (low high : ℕ) :
    Contract (Call α χ) Call.Ret (Mark α χ) (RunState (BufferedState α χ) α χ) where
  ready := fun _ _ _ => True
  assume := fun _ e => ∀ pendingCount (limit : ℕ), e = .called (.observeLimit pendingCount) limit →
    low ≤ limit ∧ limit ≤ high
  ensure := fun _ _ => True
  rely := fun w w' => w'.state.lane = w.state.lane
  guarantee := fun _ _ => True
  mayHang := True

namespace BufferedState

/-- The limit is within the range. -/
def InRange (low high : ℕ) (b : BufferedState α χ) : Prop := low ≤ b.stageLimit ∧ b.stageLimit ≤ high

/-- There is room for another record. -/
def BelowLimit (b : BufferedState α χ) : Prop := b.pendingRecords.length < b.stageLimit

end BufferedState

/-- Programs that leave the objects of the lane alone do so while others run. -/
theorem safe_limitContract_of_within {β : Type} {M : Mark α χ → Prop} {low high : ℕ}
    {p : BufferedDelivery α χ β} (hp : p.Within (laneFrame _ M))
    (w₀ w : RunWorld (BufferedState α χ) α χ) :
    p.Safe (limitContract low high) (fun _ _ w' => w'.state.lane = w.state.lane)
      (fun _ _ _ => True) w₀ w := by
  have hkept : p.Safe (limitContract low high) (fun _ _ w' => w'.state.lane = w.state.lane)
      (fun _ _ w' => w'.state.lane = w.state.lane) w₀ w := by
    refine Safe.of_within (C := limitContract low high) (F := laneFrame _ M)
      (J := fun _ w' => w'.state.lane = w.state.lane)
      (fun _ w' s hw' hs => ?_) (fun _ w' m _ hw' _ => ⟨trivial, hw'⟩)
      (fun _ w' o _ hw' => ⟨trivial, fun w₁ hrely r _ _ => ⟨trivial, ?_⟩⟩) (fun _ => trivial) hp rfl
    · exact Eq.trans hs hw'
    · exact Eq.trans hrely hw'
  exact hkept.mono (fun _ _ _ h => h) fun _ _ _ _ => trivial

namespace ExecutionCoordinator

variable [DecidableEq α] [DecidableEq χ] (c : ExecutionCoordinator α χ)
  {v : BufferedVariant α χ} {low high : ℕ} {w₀ w : RunWorld (BufferedState α χ) α χ}

theorem within_dispatchRecord (fuel : ℕ) (record : SourceRecord α χ)
    (outcome : MiddlewareChain.RecordOutcome α) :
    (c.dispatchRecord fuel record outcome : BufferedDelivery α χ Unit).Within
      (laneFrame _ fun _ => True) :=
  within_bind (within_note trivial) fun _ => c.delivery.within_dispatchProcessedResult
    ⟨fun _ _ => trivial, fun _ _ => trivial, fun _ => trivial⟩ _ _ _ _ _ _ _

omit [DecidableEq α] [DecidableEq χ] in
theorem within_committing {streaming : Bool} {p : BufferedDelivery α χ Unit}
    (hp : p.Within (laneFrame _ fun _ => True)) :
    (committing streaming p).Within (laneFrame _ fun _ => True) := by
  refine within_bind (within_attempt hp) fun committed => ?_
  cases committed with
  | ok u => exact within_ret u
  | error exc =>
    exact within_bind within_read fun _ => within_bind (within_note trivial) fun _ => within_raise _

/-- Resolving a record leaves the objects of the lane alone. -/
theorem within_resolveBufferedRecord (hv : v.Framed) (fuel : ℕ) (streaming : Bool)
    (entry : PendingRecord α χ) :
    (c.resolveBufferedRecord v fuel streaming entry).Within (laneFrame _ fun _ => True) :=
  within_committing (within_bind (within_lane_of_chain (hv.collect entry)) fun outcome =>
    c.within_dispatchRecord fuel entry.sourceRecord outcome)

/-- Taking a record makes room for one. -/
theorem safe_takeBufferedRecord (hv : v.Framed) (fuel : ℕ) (streaming : Bool)
    (entry : PendingRecord α χ) :
    (c.takeBufferedRecord v fuel streaming entry).Safe (limitContract low high)
      (fun _ _ w' => w'.state.lane =
        { w.state.lane with pendingRecords := w.state.lane.pendingRecords.tail })
      (fun _ _ _ => True) w₀ w := by
  unfold takeBufferedRecord
  rw [safe_bind]
  refine safe_modifyBuffered fun w₁ hlane _ => ?_
  refine (safe_limitContract_of_within (c.within_resolveBufferedRecord hv fuel streaming entry) w₀
    w₁).mono (fun _ _ w' hw' => ?_) fun _ _ _ he => he
  exact Eq.trans hw' hlane

/-- A round of the drain takes the first record out, or it ends the drain. -/
theorem safe_drainReadyRound (hv : v.Framed) (fuel : ℕ) (streaming : Bool) :
    (c.drainReadyRound v fuel streaming ()).Safe (limitContract low high)
      (fun r _ w' => w'.state.lane.stageLimit = w.state.lane.stageLimit ∧
        r.elim (fun _ => ∃ entry, w.state.lane.pendingRecords = entry :: w'.state.lane.pendingRecords)
          fun _ => w'.state.lane.pendingRecords = w.state.lane.pendingRecords)
      (fun _ _ _ => True) w₀ w := by
  unfold drainReadyRound
  rw [safe_bind, safe_read]
  cases hentry : w.state.lane.pendingRecords with
  | nil => exact ⟨rfl, hentry⟩
  | cons entry pending =>
    dsimp only
    have htake : ∀ w₀ w₂ : RunWorld (BufferedState α χ) α χ, w₂.state.lane = w.state.lane →
        (do c.takeBufferedRecord v fuel streaming entry; pure (.inl ()) :
          BufferedDelivery α χ (Unit ⊕ Unit)).Safe (limitContract low high)
          (fun r _ w' => w'.state.lane.stageLimit = w.state.lane.stageLimit ∧
            r.elim (fun _ => ∃ entry', entry :: pending = entry' :: w'.state.lane.pendingRecords)
              fun _ => w'.state.lane.pendingRecords = entry :: pending)
          (fun _ _ _ => True) w₀ w₂ := by
      intro w₀ w₂ hlane
      rw [safe_bind]
      refine (c.safe_takeBufferedRecord hv fuel streaming entry).mono (fun _ _ w' hw' => ?_)
        fun _ _ _ he => he
      rw [hlane, hentry] at hw'
      have hlimit : w'.state.lane.stageLimit = w.state.lane.stageLimit := by rw [hw']
      have hpending : entry :: pending = entry :: w'.state.lane.pendingRecords := by
        rw [hw']
        rfl
      exact ⟨hlimit, entry, hpending⟩
    cases entry.future with
    | none =>
      rw [safe_bind]
      exact htake w₀ w rfl
    | some future =>
      rw [safe_bind]
      refine safe_perform.mpr ⟨trivial, fun w₂ hrely done _ _ => ⟨trivial, ?_⟩⟩
      have hlane : w₂.state.lane = w.state.lane := hrely
      cases done with
      | true => exact htake _ _ hlane
      | false =>
        change w₂.state.lane.stageLimit = _ ∧ w₂.state.lane.pendingRecords = _
        rw [hlane, hentry]
        exact ⟨rfl, rfl⟩

/-- Draining takes records out and leaves the limit alone. -/
theorem safe_drainReadyRecords (hv : v.Framed) (fuel : ℕ) (streaming : Bool) :
    (c.drainReadyRecords v fuel streaming).Safe (limitContract low high)
      (fun _ _ w' => w'.state.lane.stageLimit = w.state.lane.stageLimit ∧
        w'.state.lane.pendingRecords <:+ w.state.lane.pendingRecords)
      (fun _ _ _ => True) w₀ w := by
  refine safe_iterate (I := fun _ _ w' => w'.state.lane.stageLimit = w.state.lane.stageLimit ∧
    w'.state.lane.pendingRecords <:+ w.state.lane.pendingRecords) trivial
    (fun _ w₀ w₁ hw₁ => ?_) fuel ⟨rfl, List.suffix_rfl⟩
  refine (c.safe_drainReadyRound hv fuel streaming).mono (fun r _ w' hw' => ?_) fun _ _ _ he => he
  obtain ⟨hlimit, hpending⟩ := hw'
  cases r with
  | inl u =>
    obtain ⟨entry, hentry⟩ := hpending
    refine ⟨hlimit.trans hw₁.1, List.IsSuffix.trans ?_ hw₁.2⟩
    rw [hentry]
    exact List.suffix_cons entry _
  | inr u =>
    refine ⟨hlimit.trans hw₁.1, ?_⟩
    rw [show w'.state.lane.pendingRecords = w₁.state.lane.pendingRecords from hpending]
    exact hw₁.2

omit [DecidableEq α] [DecidableEq χ] in
/-- Looking at the metrics moves the limit within the range. -/
theorem safe_observeLimit (n : ℕ) (hrange : w.state.lane.InRange low high) :
    (c.observeLimit n).Safe (limitContract low high)
      (fun _ _ w' => w'.state.lane.InRange low high ∧
        w'.state.lane.pendingRecords = w.state.lane.pendingRecords)
      (fun _ _ _ => True) w₀ w := by
  unfold observeLimit
  split
  · rw [safe_bind]
    refine safe_perform.mpr ⟨trivial, fun w₁ hrely limit _ hassume => ⟨trivial, ?_⟩⟩
    have hlane : w₁.state.lane = w.state.lane := hrely
    refine ⟨hassume n limit rfl, ?_⟩
    change w₁.state.lane.pendingRecords = _
    rw [hlane]
  · exact ⟨hrange, rfl⟩

/-- A round of the loop ends with room for another record, or it has taken one out. -/
theorem safe_limitRecordsRound (hv : v.Framed) (fuel : ℕ) (hlow : 0 < low)
    (hrange : w.state.lane.InRange low high) :
    (c.limitRecordsRound v fuel ()).Safe (limitContract low high)
      (fun r _ w' => w'.state.lane.InRange low high ∧
        r.elim
          (fun _ => w'.state.lane.pendingRecords <:+ w.state.lane.pendingRecords ∧
            w'.state.lane.pendingRecords.length < w.state.lane.pendingRecords.length)
          fun _ => w'.state.lane.BelowLimit)
      (fun _ _ _ => True) w₀ w := by
  unfold limitRecordsRound
  rw [safe_bind, safe_read]
  split
  next hbelow => exact ⟨hrange, hbelow⟩
  rw [safe_bind]
  refine (c.safe_observeLimit _ hrange).mono (fun _ w₀ w₁ hw₁ => ?_) fun _ _ _ he => he
  obtain ⟨hrange₁, hpending₁⟩ := hw₁
  rw [safe_bind]
  refine (c.safe_drainReadyRecords hv fuel true).mono (fun _ w₀ w₂ hw₂ => ?_) fun _ _ _ he => he
  obtain ⟨hlimit₂, hpending₂⟩ := hw₂
  have hrange₂ : w₂.state.lane.InRange low high := by
    unfold BufferedState.InRange at hrange₁ ⊢
    rwa [hlimit₂]
  rw [hpending₁] at hpending₂
  rw [safe_bind, safe_read]
  split
  next hbelow => exact ⟨hrange₂, hbelow⟩
  next hfull =>
    rw [safe_bind]
    unfold commitNextRecord
    rw [safe_bind, safe_read]
    -- the limit is at least one, so there is a record to take
    cases hentry : w₂.state.lane.pendingRecords with
    | nil =>
      have hlimit := hrange₂.1
      rw [hentry, List.length_nil] at hfull
      omega
    | cons entry pending =>
      refine (c.safe_takeBufferedRecord hv fuel true entry).mono (fun _ w₀ w₃ hw₃ => ?_)
        fun _ _ _ he => he
      have hrange₃ : w₃.state.lane.InRange low high := by
        unfold BufferedState.InRange
        rw [hw₃]
        exact hrange₂
      have hpending₃ : w₃.state.lane.pendingRecords = pending := by
        rw [hw₃, hentry]
        rfl
      rw [hentry] at hpending₂
      refine ⟨hrange₃, ?_, ?_⟩
      · rw [hpending₃]
        exact (List.suffix_cons entry pending).trans hpending₂
      · have hlength := hpending₂.length_le
        rw [List.length_cons] at hlength
        rw [hpending₃]
        omega

/-- The loop leaves room for another record. -/
theorem safe_limitRecords (hv : v.Framed) (fuel rounds : ℕ) (hlow : 0 < low)
    (hrange : w.state.lane.InRange low high) :
    (iterate (c.limitRecordsRound v fuel) rounds ()).Safe (limitContract low high)
      (fun _ _ w' => w'.state.lane.InRange low high ∧ w'.state.lane.BelowLimit)
      (fun _ _ _ => True) w₀ w := by
  refine safe_iterate (I := fun _ _ w' => w'.state.lane.InRange low high) trivial
    (fun _ w₀ w₁ hw₁ => ?_) rounds hrange
  refine (c.safe_limitRecordsRound hv fuel hlow hw₁).mono (fun r _ w' hw' => ?_) fun _ _ _ he => he
  cases r with
  | inl u => exact hw'.1
  | inr u => exact hw'

end ExecutionCoordinator

/-! ### Pulling records -/

/-- The loop over a stream up to the point at which it pulls the element after the given ones. -/
def forEachSoFar {ℓ ρ : Type} (body : ρ → Delivery ℓ α χ Unit) : List ρ → Delivery ℓ α χ Unit
  | [] => pure ()
  | element :: elements => do
    invoke .sourceNext
    body element
    forEachSoFar body elements

/-- A loop over a stream is the loop up to a pull, and the rest of it. -/
theorem forEach_append {ℓ ρ : Type} (body : ρ → Delivery ℓ α χ Unit) (done rest : List ρ) :
    forEach body (done ++ rest) = (do forEachSoFar body done; forEach body rest) := by
  induction done with
  | nil => rfl
  | cons element done ih =>
    rw [List.cons_append, forEach, forEachSoFar, ih]
    simp only [bind_assoc]

namespace ExecutionCoordinator

variable [DecidableEq α] [DecidableEq χ] (c : ExecutionCoordinator α χ)

section Streaming

variable {v : BufferedVariant α χ} {low high : ℕ} {w₀ w : RunWorld (BufferedState α χ) α χ}

/-- After a record there is room for another one. -/
theorem safe_streamRecord_belowLimit (hv : v.Framed) (fuel splitIndex : ℕ) (hlow : 0 < low)
    (record : SourceRecord α χ) (hrange : w.state.lane.InRange low high)
    (hbelow : w.state.lane.BelowLimit) :
    (c.streamRecord v fuel splitIndex record).Safe (limitContract low high)
      (fun _ _ w' => w'.state.lane.InRange low high ∧ w'.state.lane.BelowLimit)
      (fun _ _ _ => True) w₀ w := by
  have henter : (c.enterRecord v splitIndex record).Within (laneFrame _ fun _ => True) := by
    refine within_bind (within_lane_of_chain (MiddlewareChain.within_processStages _ _ _))
      fun outcome => ?_
    cases outcome.1 with
    | none => exact within_ret _
    | some value =>
      exact within_bind (within_lane_of_chain (hv.submit record value)) fun _ => within_ret _
  have hstart : ((consume 1 >>= fun _ =>
      modify fun s => { s with processedCount := s.processedCount + 1 }) >>= fun _ =>
      c.enterRecord v splitIndex record : BufferedDelivery α χ _).Within
        (laneFrame _ fun _ => True) :=
    within_bind (within_bind (DeliveryEngine.within_lane_of_delivery (within_consume 1)) fun _ =>
      within_modify fun _ => rfl) fun _ => henter
  rw [streamRecord, ← bind_assoc, ← bind_assoc, safe_bind]
  refine (safe_limitContract_of_within hstart w₀ w).mono (fun entered w₀ w₁ hw₁ => ?_)
    fun _ _ _ he => he
  have hlane₁ : w₁.state.lane = w.state.lane := hw₁
  cases entered with
  | inl outcome =>
    have hreject : (do
        let s ← read
        note (.prefixRejected s.lane.pendingRecords.length)
        committing true (c.dispatchRecord fuel record outcome) : BufferedDelivery α χ Unit).Within
          (laneFrame _ fun _ => True) :=
      within_bind within_read fun _ => within_bind (within_note trivial) fun _ =>
        within_committing (c.within_dispatchRecord fuel record outcome)
    refine (safe_limitContract_of_within hreject w₀ w₁).mono (fun _ _ w' hw' => ?_)
      fun _ _ _ he => he
    have hlane' : w'.state.lane = w.state.lane := Eq.trans hw' hlane₁
    rw [hlane']
    exact ⟨hrange, hbelow⟩
  | inr entry =>
    dsimp only
    rw [safe_bind]
    refine safe_modifyBuffered fun w₂ hlane₂ _ => c.safe_limitRecords hv fuel fuel hlow ?_
    unfold BufferedState.InRange
    rw [hlane₂, hlane₁]
    exact hrange

/-- At every pull there is room for the next record. -/
theorem safe_forEachSoFar (hv : v.Framed) (fuel splitIndex : ℕ) (hlow : 0 < low)
    (done : List (SourceRecord α χ)) (hrange : w.state.lane.InRange low high)
    (hbelow : w.state.lane.BelowLimit) :
    (forEachSoFar (c.streamRecord v fuel splitIndex) done).Safe (limitContract low high)
      (fun _ _ w' => w'.state.lane.InRange low high ∧ w'.state.lane.BelowLimit)
      (fun _ _ _ => True) w₀ w := by
  induction done generalizing w₀ w with
  | nil => exact ⟨hrange, hbelow⟩
  | cons record done ih =>
    rw [forEachSoFar, safe_bind]
    have hnext : (invoke .sourceNext : BufferedDelivery α χ Unit).Within
        (laneFrame _ fun _ => True) :=
      within_bind (within_perform trivial) fun r => within_ofExcept r
    refine (safe_limitContract_of_within hnext w₀ w).mono (fun _ w₀ w₁ hw₁ => ?_) fun _ _ _ he => he
    have hlane₁ : w₁.state.lane = w.state.lane := hw₁
    rw [← hlane₁] at hrange hbelow
    rw [safe_bind]
    refine (c.safe_streamRecord_belowLimit hv fuel splitIndex hlow record hrange hbelow).mono
      (fun _ w₀ w₂ hw₂ => ?_) fun _ _ _ he => he
    exact ih hw₂.1 hw₂.2

end Streaming

/-! ### Runs -/

/-- The variant of the lane for the buffered stages. -/
def bufferedVariant (first : BufferedStageSpec) (rest : List BufferedStageSpec) :
    BufferedVariant α χ :=
  if rest.isEmpty then c.singleVariant first else c.multiVariant first

omit [DecidableEq χ] in
theorem framed_bufferedVariant (first : BufferedStageSpec) (rest : List BufferedStageSpec) :
    (c.bufferedVariant first rest).Framed := by
  unfold bufferedVariant
  split
  · exact c.framed_singleVariant first
  · exact c.framed_multiVariant first

/-- The lane sets the limit and runs its variant. -/
theorem runBufferedLane_eq (fuel : ℕ) (first : BufferedStageSpec) (rest : List BufferedStageSpec)
    (currentLimit : ℕ) (records : List (SourceRecord α χ)) :
    c.runBufferedLane fuel (first :: rest) currentLimit records = (do
      modifyBuffered fun b =>
        { b with stageLimit := c.bufferedStageLimit (first :: rest) currentLimit }
      c.runBuffered (c.bufferedVariant first rest) fuel first.index records) := by
  unfold runBufferedLane bufferedVariant
  cases rest <;> rfl

/-- The lane up to the pull of the record after the given ones. -/
def runUntilPull (fuel : ℕ) (first : BufferedStageSpec) (rest : List BufferedStageSpec)
    (currentLimit : ℕ) (done : List (SourceRecord α χ)) : BufferedDelivery α χ Unit := do
  modifyBuffered fun b => { b with stageLimit := c.bufferedStageLimit (first :: rest) currentLimit }
  forEachSoFar (c.streamRecord (c.bufferedVariant first rest) fuel first.index) done

/-- What `runBuffered` does when the stream has ended. -/
def finishStream (v : BufferedVariant α χ) (fuel : ℕ) (streamed : Except Exc Unit) :
    BufferedDelivery α χ Unit := do
  hotFlush
  match streamed with
  | .error exc =>
    if mustAbortPendingWork exc then do
      abortPendingWork
      raise exc
    else do
      c.drainPendingRecords v fuel
      raise exc
  | .ok () => c.drainPendingRecords v fuel

/-- Whatever records follow, the lane begins with the run up to a pull, and goes on with the rest of the
stream. -/
theorem runBufferedLane_append (fuel : ℕ) (first : BufferedStageSpec) (rest : List BufferedStageSpec)
    (currentLimit : ℕ) (done records : List (SourceRecord α χ)) :
    c.runBufferedLane fuel (first :: rest) currentLimit (done ++ records) = (do
      let streamed ← attempt (do
        c.runUntilPull fuel first rest currentLimit done
        forEach (c.streamRecord (c.bufferedVariant first rest) fuel first.index) records)
      c.finishStream (c.bufferedVariant first rest) fuel streamed) := by
  rw [runBufferedLane_eq, runBuffered, forEach_append]
  rfl

/-- `_build_adaptive_backpressure_controller` in `BufferedLaneStrategy.run`. -/
def adaptiveController (bp : Backpressure) (stages : List BufferedStageSpec) :
    AdaptiveBackpressureController :=
  bp.buildController (c.maxBufferSize.map Int.ofNat)
    (max 1 (stages.map BufferedStageSpec.concurrency).sum : ℕ)

/-- A run up to a pull, from the limit of the controller on, with nothing in flight. -/
theorem safe_runUntilPull (hadaptive : c.adaptiveBackpressure = true) (first : BufferedStageSpec)
    (rest : List BufferedStageSpec) (fuel : ℕ) {controller : AdaptiveBackpressureController}
    (hbounded : controller.Bounded) (done : List (SourceRecord α χ))
    {w : RunWorld (BufferedState α χ) α χ} (hpending : w.state.lane.pendingRecords = []) :
    (c.runUntilPull fuel first rest controller.currentLimit.toNat done).Safe
      (limitContract controller.minLimit.toNat controller.maxLimit.toNat)
      (fun _ _ w' => w'.state.lane.InRange controller.minLimit.toNat controller.maxLimit.toNat ∧
        w'.state.lane.BelowLimit) (fun _ _ _ => True) w w := by
  have hone := hbounded.one_le_min
  have hmin := hbounded.min_le_current
  have hmax := hbounded.current_le_max
  have hlow : 0 < controller.minLimit.toNat := by omega
  unfold runUntilPull
  rw [safe_bind]
  refine safe_modifyBuffered fun w₁ hlane _ => ?_
  have hlimit : w₁.state.lane.stageLimit = controller.currentLimit.toNat := by
    rw [hlane]
    exact if_pos hadaptive
  refine c.safe_forEachSoFar (c.framed_bufferedVariant first rest) fuel first.index hlow done ?_ ?_
  · unfold BufferedState.InRange
    omega
  · unfold BufferedState.BelowLimit
    have hnil : w₁.state.lane.pendingRecords = [] := by rw [hlane, hpending]
    rw [hnil, List.length_nil]
    omega

/-- At every pull the number of records in flight is below the limit, and the limit is within its
bounds: beside the pending-write owner, for every answer of the environment and all metrics. -/
theorem belowLimit_at_pull (bp : Backpressure) (hadaptive : c.adaptiveBackpressure = true)
    (first : BufferedStageSpec) (rest : List BufferedStageSpec) (fuel : ℕ)
    (metrics : RunTrace α χ → RuntimeMetrics) (h : Environment α χ) (lastSaved : Option χ)
    (done : List (SourceRecord α χ)) (turns : List Turn)
    {run : System.Config (Call α χ) Call.Ret (Mark α χ) (RunState (BufferedState α χ) α χ) Exc Unit}
    (hrun : c.laneRun fuel
      (c.runUntilPull fuel first rest
        (c.adaptiveController bp (first :: rest)).currentLimit.toNat done)
      (controlled (c.adaptiveController bp (first :: rest)) metrics h) lastSaved turns = run)
    (hpull : run.main = .ended (.returned ())) (hhung : run.hung = false) :
    run.world.state.lane.BelowLimit ∧
      run.world.state.lane.InRange (c.adaptiveController bp (first :: rest)).minLimit.toNat
        (c.adaptiveController bp (first :: rest)).maxLimit.toNat := by
  have hbounded : (c.adaptiveController bp (first :: rest)).Bounded :=
    bp.buildController_bounded _ _
  generalize c.adaptiveController bp (first :: rest) = controller at hrun hbounded ⊢
  let contract := limitContract (α := α) (χ := χ) controller.minLimit.toNat controller.maxLimit.toNat
  have hbeside : (c.runUntilPull fuel first rest controller.currentLimit.toNat done).Safe
      (laneContract contract.assume fun _ _ => True)
      (fun _ _ w' => w'.state.lane.InRange controller.minLimit.toNat controller.maxLimit.toNat ∧
        w'.state.lane.BelowLimit) (fun _ _ _ => True)
      ⟨RunState.initial ⟨[], 0⟩ lastSaved, []⟩ ⟨RunState.initial ⟨[], 0⟩ lastSaved, []⟩ := by
    refine (c.safe_runUntilPull hadaptive first rest fuel hbounded done rfl).weaken
      (fun _ _ hback => ?_) (fun _ _ _ _ => trivial) (fun _ _ ha => ?_) (fun _ _ _ => trivial)
      (fun _ _ _ => trivial) fun _ => trivial
    · exact hback.lane
    · exact ha
  obtain ⟨t, ht, hpost⟩ := c.delivery.withOwner_sound (fun _ _ _ _ => trivial)
    (fun _ _ _ _ => trivial) hbeside (controlled controller metrics h) turns hrun
  obtain ⟨t', ht', hanswered⟩ := System.answered_exec (S := c.delivery.withOwner fuel
    (c.runUntilPull fuel first rest controller.currentLimit.toNat done))
    (controlled controller metrics h) ⟨RunState.initial ⟨[], 0⟩ lastSaved, []⟩ turns
  have hexec : run.world.trace = [] ++ t' := by
    rw [← hrun]
    exact ht'
  obtain rfl : t = t' := List.append_cancel_left (ht.symm.trans hexec)
  have hassume : Along contract.assume [] t := by
    refine hanswered.mono fun past e he pendingCount limit hcall => ?_
    have hlimit : limit = controlled controller metrics h past (.observeLimit pendingCount) :=
      he _ _ hcall
    rw [hlimit]
    exact controlled_observeLimit metrics hbounded h past pendingCount
  obtain ⟨w₀, w₁, hw₁, hback⟩ := (hpost hassume).2.1 () hpull hhung
  rw [hback.lane]
  exact ⟨hw₁.2, hw₁.1⟩

section Alone

variable {v : BufferedVariant α χ} {h : Environment α χ} {low high : ℕ}
  {w w' : RunWorld (BufferedState α χ) α χ}

omit [DecidableEq α] [DecidableEq χ] in
/-- What the contract says of a program that returns, where the answers of the controller are within the
range. -/
theorem run_of_safe_limitContract {β : Type} {p : BufferedDelivery α χ β} {a : β}
    (hanswers : ∀ t pendingCount, low ≤ (h t (.observeLimit pendingCount) : ℕ) ∧
      (h t (.observeLimit pendingCount) : ℕ) ≤ high)
    {Q : β → RunWorld (BufferedState α χ) α χ → RunWorld (BufferedState α χ) α χ → Prop}
    {E : Exc → RunWorld (BufferedState α χ) α χ → RunWorld (BufferedState α χ) α χ → Prop}
    (hsafe : p.Safe (limitContract low high) Q E w w) (hrun : p.run h w = (.returned a, w')) :
    ∃ w₁, Q a w₁ w' := by
  have hanswered : p.Safe (.answered h True) Q E w w :=
    hsafe.weaken
      (fun _ _ he => (congrArg (fun w : RunWorld (BufferedState α χ) α χ => w.state.lane) he).symm)
      (fun _ _ _ _ => trivial)
      (fun _ _ he pendingCount limit hcall => he _ _ hcall ▸ hanswers _ pendingCount)
      (fun _ _ _ => trivial) (fun _ _ _ => trivial) fun _ => trivial
  have hend := hanswered.run_answered
  rw [hrun] at hend
  exact hend

/-- A round that goes on has taken a record out. -/
theorem run_limitRecordsRound_goesOn (hv : v.Framed) (fuel : ℕ) (hlow : 0 < low)
    (hanswers : ∀ t pendingCount, low ≤ (h t (.observeLimit pendingCount) : ℕ) ∧
      (h t (.observeLimit pendingCount) : ℕ) ≤ high) (hrange : w.state.lane.InRange low high)
    (hrun : (c.limitRecordsRound v fuel ()).run h w = (.returned (.inl ()), w')) :
    w'.state.lane.InRange low high ∧ w'.state.lane.pendingRecords <:+ w.state.lane.pendingRecords ∧
      w'.state.lane.pendingRecords.length < w.state.lane.pendingRecords.length := by
  obtain ⟨_, hrange', hpending⟩ := run_of_safe_limitContract hanswers
    (c.safe_limitRecordsRound hv fuel hlow hrange) hrun
  exact ⟨hrange', hpending⟩

/-- The loop that waits for room ends: with more rounds than records are pending it ends as it does with
any further ones, whatever the answers of the controller are. -/
theorem run_limitRecords_more (hv : v.Framed) (fuel : ℕ) (hlow : 0 < low)
    (hanswers : ∀ t pendingCount, low ≤ (h t (.observeLimit pendingCount) : ℕ) ∧
      (h t (.observeLimit pendingCount) : ℕ) ≤ high) (hrange : w.state.lane.InRange low high)
    {rounds : ℕ} (hrounds : w.state.lane.pendingRecords.length < rounds) (more : ℕ) :
    (iterate (c.limitRecordsRound v fuel) (rounds + more) ()).run h w =
      (iterate (c.limitRecordsRound v fuel) rounds ()).run h w := by
  refine run_iterate_more h (I := fun _ w => w.state.lane.InRange low high)
    (fun _ w => w.state.lane.pendingRecords.length) (fun _ w _ w' hw hrun => ?_) rounds more hrounds
    hrange
  obtain ⟨hrange', -, hlt⟩ := c.run_limitRecordsRound_goesOn hv fuel hlow hanswers hw hrun
  exact ⟨hrange', hlt⟩

/-- The resolution of a record that was in flight has hung. -/
def ResolutionHung (v : BufferedVariant α χ) (fuel : ℕ) (h : Environment α χ)
    (pending : List (PendingRecord α χ)) (w' : RunWorld (BufferedState α χ) α χ) : Prop :=
  ∃ entry ∈ pending, ∃ w₁, (c.resolveBufferedRecord v fuel true entry).run h w₁ = (.hung, w')

theorem resolutionHung_of_take {entry : PendingRecord α χ} {fuel : ℕ}
    {pending : List (PendingRecord α χ)} (hentry : entry ∈ pending)
    (hrun : (c.takeBufferedRecord v fuel true entry).run h w = (.hung, w')) :
    c.ResolutionHung v fuel h pending w' := by
  unfold takeBufferedRecord modifyBuffered at hrun
  rw [run_bind, run_modify] at hrun
  exact ⟨entry, hentry, _, hrun⟩

/-- A round of the drain hangs only in a resolution. -/
theorem resolutionHung_of_drainReadyRound {fuel : ℕ}
    (hrun : (c.drainReadyRound v fuel true ()).run h w = (.hung, w')) :
    c.ResolutionHung v fuel h w.state.lane.pendingRecords w' := by
  unfold drainReadyRound at hrun
  rw [run_bind, run_read] at hrun
  dsimp only at hrun
  cases hentry : w.state.lane.pendingRecords with
  | nil =>
    rw [hentry] at hrun
    cases hrun
  | cons entry pending =>
    have htake : ∀ w₁, (do c.takeBufferedRecord v fuel true entry; pure (.inl ()) :
        BufferedDelivery α χ (Unit ⊕ Unit)).run h w₁ = (.hung, w') →
          c.ResolutionHung v fuel h (entry :: pending) w' := by
      intro w₁ hrun
      rw [run_bind] at hrun
      refine c.resolutionHung_of_take List.mem_cons_self (w := w₁) ?_
      cases hend : (c.takeBufferedRecord v fuel true entry).run h w₁ with
      | mk outcome w₂ =>
        rw [hend] at hrun
        cases outcome with
        | hung =>
          cases hrun
          rfl
        | raised e => cases hrun
        | returned u => cases hrun
    rw [hentry] at hrun
    dsimp only at hrun
    cases hfuture : entry.future with
    | none =>
      rw [hfuture, run_bind] at hrun
      exact htake w hrun
    | some future =>
      rw [hfuture, run_bind, run_perform] at hrun
      dsimp only at hrun
      cases hdone : (h w.trace (.futureDone future) : Bool) with
      | false =>
        rw [hdone] at hrun
        cases hrun
      | true =>
        rw [hdone] at hrun
        exact htake _ hrun

/-- The drain hangs only in a resolution, if it may go round more often than records are pending. -/
theorem resolutionHung_of_drainReadyRecords (hv : v.Framed) {fuel : ℕ}
    (hanswers : ∀ t pendingCount, low ≤ (h t (.observeLimit pendingCount) : ℕ) ∧
      (h t (.observeLimit pendingCount) : ℕ) ≤ high)
    (hfuel : w.state.lane.pendingRecords.length < fuel)
    (hrun : (c.drainReadyRecords v fuel true).run h w = (.hung, w')) :
    c.ResolutionHung v fuel h w.state.lane.pendingRecords w' := by
  have hshorter : ∀ (_ : Unit) w₁ (_ : Unit) w₂,
      w₁.state.lane.pendingRecords <:+ w.state.lane.pendingRecords →
        (c.drainReadyRound v fuel true ()).run h w₁ = (.returned (.inl ()), w₂) →
          w₂.state.lane.pendingRecords <:+ w.state.lane.pendingRecords ∧
            w₂.state.lane.pendingRecords.length < w₁.state.lane.pendingRecords.length := by
    intro _ w₁ _ w₂ hw₁ hround
    obtain ⟨_, -, entry, hentry⟩ := run_of_safe_limitContract hanswers
      (c.safe_drainReadyRound hv fuel true) hround
    rw [hentry] at hw₁ ⊢
    exact ⟨(List.suffix_cons entry _).trans hw₁, Nat.lt_succ_self _⟩
  obtain ⟨u, w₁, hsuffix, hround⟩ := run_iterate_hung
    (fun _ w => w.state.lane.pendingRecords.length) hshorter hfuel List.suffix_rfl hrun
  obtain ⟨entry, hentry, hhung⟩ := c.resolutionHung_of_drainReadyRound hround
  exact ⟨entry, hsuffix.subset hentry, hhung⟩

/-- A round of the loop hangs only in a resolution. -/
theorem resolutionHung_of_limitRecordsRound (hv : v.Framed) {fuel : ℕ}
    (hanswers : ∀ t pendingCount, low ≤ (h t (.observeLimit pendingCount) : ℕ) ∧
      (h t (.observeLimit pendingCount) : ℕ) ≤ high) (hrange : w.state.lane.InRange low high)
    (hfuel : w.state.lane.pendingRecords.length < fuel)
    (hrun : (c.limitRecordsRound v fuel ()).run h w = (.hung, w')) :
    c.ResolutionHung v fuel h w.state.lane.pendingRecords w' := by
  unfold limitRecordsRound at hrun
  rw [run_bind, run_read] at hrun
  dsimp only at hrun
  split at hrun
  next => cases hrun
  rw [run_bind] at hrun
  obtain ⟨w₁, hobserve⟩ : ∃ w₁, (c.observeLimit w.state.lane.pendingRecords.length).run h w =
      (.returned (), w₁) := by
    unfold observeLimit
    split
    · exact ⟨_, rfl⟩
    · exact ⟨w, rfl⟩
  obtain ⟨_, -, hpending₁⟩ :=
    run_of_safe_limitContract hanswers (c.safe_observeLimit _ hrange) hobserve
  rw [hobserve] at hrun
  dsimp only at hrun
  rw [run_bind] at hrun
  cases hdrain : (c.drainReadyRecords v fuel true).run h w₁ with
  | mk outcome w₂ =>
    rw [hdrain] at hrun
    cases outcome with
    | raised e => cases hrun
    | hung =>
      cases hrun
      rw [← hpending₁] at hfuel ⊢
      exact c.resolutionHung_of_drainReadyRecords hv hanswers hfuel hdrain
    | returned u =>
      obtain ⟨_, -, hsuffix⟩ := run_of_safe_limitContract hanswers
        (c.safe_drainReadyRecords hv fuel true) hdrain
      dsimp only at hrun
      rw [run_bind, run_read] at hrun
      dsimp only at hrun
      split at hrun
      next => cases hrun
      rw [run_bind] at hrun
      unfold commitNextRecord at hrun
      rw [run_bind, run_read] at hrun
      dsimp only at hrun
      cases hentry : w₂.state.lane.pendingRecords with
      | nil =>
        rw [hentry] at hrun
        cases hrun
      | cons entry pending =>
        rw [hentry] at hrun hsuffix
        dsimp only at hrun
        have hmem : entry ∈ w.state.lane.pendingRecords := by
          rw [← hpending₁]
          exact hsuffix.subset List.mem_cons_self
        refine c.resolutionHung_of_take hmem (w := w₂) ?_
        cases hend : (c.takeBufferedRecord v fuel true entry).run h w₂ with
        | mk outcome w₃ =>
          rw [hend] at hrun
          cases outcome with
          | hung =>
            cases hrun
            rfl
          | raised e => cases hrun
          | returned u => cases hrun

/-- The loop hangs only in a resolution of a record in flight, if it may go round more often than records
are pending. -/
theorem resolutionHung_of_limitRecords (hv : v.Framed) {fuel : ℕ} (hlow : 0 < low)
    (hanswers : ∀ t pendingCount, low ≤ (h t (.observeLimit pendingCount) : ℕ) ∧
      (h t (.observeLimit pendingCount) : ℕ) ≤ high) (hrange : w.state.lane.InRange low high)
    (hfuel : w.state.lane.pendingRecords.length < fuel) {rounds : ℕ}
    (hrounds : w.state.lane.pendingRecords.length < rounds)
    (hrun : (iterate (c.limitRecordsRound v fuel) rounds ()).run h w = (.hung, w')) :
    c.ResolutionHung v fuel h w.state.lane.pendingRecords w' := by
  have hshorter : ∀ (_ : Unit) w₁ (_ : Unit) w₂,
      (w₁.state.lane.InRange low high ∧
        w₁.state.lane.pendingRecords <:+ w.state.lane.pendingRecords) →
        (c.limitRecordsRound v fuel ()).run h w₁ = (.returned (.inl ()), w₂) →
          (w₂.state.lane.InRange low high ∧
            w₂.state.lane.pendingRecords <:+ w.state.lane.pendingRecords) ∧
            w₂.state.lane.pendingRecords.length < w₁.state.lane.pendingRecords.length := by
    rintro _ w₁ _ w₂ ⟨hrange₁, hsuffix₁⟩ hround
    obtain ⟨hrange₂, hsuffix₂, hlt⟩ :=
      c.run_limitRecordsRound_goesOn hv fuel hlow hanswers hrange₁ hround
    exact ⟨⟨hrange₂, hsuffix₂.trans hsuffix₁⟩, hlt⟩
  obtain ⟨u, w₁, ⟨hrange₁, hsuffix⟩, hround⟩ := run_iterate_hung
    (fun _ w => w.state.lane.pendingRecords.length) hshorter hrounds ⟨hrange, List.suffix_rfl⟩ hrun
  obtain ⟨entry, hentry, hhung⟩ := c.resolutionHung_of_limitRecordsRound hv hanswers hrange₁
    (hsuffix.length_le.trans_lt hfuel) hround
  exact ⟨entry, hsuffix.subset hentry, hhung⟩

end Alone

/-- The coordinator with a backpressure configuration. -/
def withBackpressure : ExecutionCoordinator α χ := { c with adaptiveBackpressure := true }

/-- Adaptive backpressure: over every sequence of metrics the controller divides by nothing that is zero
and keeps its limits in order and below the size of the buffer; at every pull that the lane gets to, the
number of records in flight is below the limit in force; and the loop that waits for room ends, wherever
the limit goes: a round that goes on takes a record out, and with more rounds than records in flight the
loop hangs only where the resolution of one of them does. -/
theorem adaptiveBackpressure_bounded (bp : Backpressure) :
    (∀ (maxBufferSize : Option ℤ) (baseLimit : ℤ) (observations : List (RuntimeMetrics × ℤ)),
      ∃ controller, (bp.buildController maxBufferSize baseLimit).observeAll observations =
          some controller ∧
        (1 ≤ controller.minLimit ∧ controller.minLimit ≤ controller.currentLimit ∧
          controller.currentLimit ≤ controller.maxLimit) ∧
        ∀ size, maxBufferSize = some size → 1 ≤ size → controller.maxLimit ≤ size) ∧
    (∀ (first : BufferedStageSpec) (rest : List BufferedStageSpec) (fuel currentLimit : ℕ)
        (done records : List (SourceRecord α χ)),
      let v := c.withBackpressure.bufferedVariant first rest
      c.withBackpressure.runBufferedLane fuel (first :: rest) currentLimit (done ++ records) = (do
        let streamed ← attempt (do
          c.withBackpressure.runUntilPull fuel first rest currentLimit done
          forEach (c.withBackpressure.streamRecord v fuel first.index) records)
        c.withBackpressure.finishStream v fuel streamed)) ∧
    (∀ (first : BufferedStageSpec) (rest : List BufferedStageSpec) (fuel : ℕ)
        (metrics : RunTrace α χ → RuntimeMetrics) (h : Environment α χ) (lastSaved : Option χ)
        (done : List (SourceRecord α χ)) (turns : List Turn),
      let controller := c.withBackpressure.adaptiveController bp (first :: rest)
      let run := c.withBackpressure.laneRun fuel
        (c.withBackpressure.runUntilPull fuel first rest controller.currentLimit.toNat done)
        (controlled controller metrics h) lastSaved turns
      run.main = .ended (.returned ()) → run.hung = false →
        run.world.state.lane.BelowLimit ∧
          run.world.state.lane.InRange controller.minLimit.toNat controller.maxLimit.toNat) ∧
    ∀ (first : BufferedStageSpec) (rest : List BufferedStageSpec) (fuel : ℕ)
        (metrics : RunTrace α χ → RuntimeMetrics) (h : Environment α χ)
        (w : RunWorld (BufferedState α χ) α χ),
      let controller := c.withBackpressure.adaptiveController bp (first :: rest)
      let answers := controlled controller metrics h
      let v := c.withBackpressure.bufferedVariant first rest
      let round := c.withBackpressure.limitRecordsRound v fuel
      w.state.lane.InRange controller.minLimit.toNat controller.maxLimit.toNat →
        (∀ w', (round ()).run answers w = (.returned (.inl ()), w') →
          w'.state.lane.pendingRecords.length < w.state.lane.pendingRecords.length) ∧
        ∀ rounds, w.state.lane.pendingRecords.length < rounds →
          (∀ more, (iterate round (rounds + more) ()).run answers w =
            (iterate round rounds ()).run answers w) ∧
          (w.state.lane.pendingRecords.length < fuel →
            ∀ w', (iterate round rounds ()).run answers w = (.hung, w') →
              c.withBackpressure.ResolutionHung v fuel answers w.state.lane.pendingRecords w') := by
  refine ⟨fun maxBufferSize baseLimit observations => ?_,
    fun first rest fuel currentLimit done records =>
      c.withBackpressure.runBufferedLane_append fuel first rest currentLimit done records, ?_, ?_⟩
  · obtain ⟨controller, hobserve, hbounded, -, hmax⟩ :=
      (bp.buildController_bounded maxBufferSize baseLimit).observeAll observations
    refine ⟨controller, hobserve,
      ⟨hbounded.one_le_min, hbounded.min_le_current, hbounded.current_le_max⟩, ?_⟩
    rintro size rfl hsize
    rw [hmax]
    exact bp.buildController_maxLimit_le hsize baseLimit
  · intro first rest fuel metrics h lastSaved done turns controller run hpull hhung
    exact c.withBackpressure.belowLimit_at_pull bp rfl first rest fuel metrics h lastSaved done turns
      rfl hpull hhung
  · intro first rest fuel metrics h w controller answers v round hrange
    have hbounded : controller.Bounded := bp.buildController_bounded _ _
    have hone := hbounded.one_le_min
    have hlow : 0 < controller.minLimit.toNat := by omega
    have hv : v.Framed := c.withBackpressure.framed_bufferedVariant first rest
    have hanswers := controlled_observeLimit metrics hbounded h
    refine ⟨fun w' hround => ?_, fun rounds hrounds => ⟨fun more => ?_, fun hfuel w' hhung => ?_⟩⟩
    · exact (c.withBackpressure.run_limitRecordsRound_goesOn hv fuel hlow hanswers hrange hround).2.2
    · exact c.withBackpressure.run_limitRecords_more hv fuel hlow hanswers hrange hrounds more
    · exact c.withBackpressure.resolutionHung_of_limitRecords hv hlow hanswers hrange hfuel hrounds
        hhung

end ExecutionCoordinator

/-! ### A slow writer -/

/-- A coordinator with a buffered stage and adaptive backpressure. -/
def adaptive : ExecutionCoordinator ℕ ℕ :=
  ExecutionCoordinator.standard (.standard true) [⟨"enrich", .perRecord, 1⟩]

/-- The controller for the stage, which may have two records under way. -/
def adaptiveTwo : AdaptiveBackpressureController :=
  adaptive.withBackpressure.adaptiveController {} [⟨0, "enrich", 2⟩]

/-- Since the last look there were flushes, and they took long. -/
def slowWriter (t : RunTrace ℕ ℕ) : RuntimeMetrics :=
  { writerFlushCount := t.length, writerFlushTimeMs := 100 * t.length }

/-- No future is done before it is awaited. -/
def lateFutures : Environment ℕ ℕ
  | _, .await (.submit _ record) => .ok record
  | _, .await (.awaitFuture record) => .ok (.value (some record))
  | _, .futureDone _ => false
  | t, o => undisturbed t o

/-- The lane up to the pull of the third record. -/
def slowRun :
    System.Config (Call ℕ ℕ) Call.Ret (Mark ℕ ℕ) (RunState (BufferedState ℕ ℕ) ℕ ℕ) Exc Unit :=
  adaptive.withBackpressure.laneRun 4
    (adaptive.withBackpressure.runUntilPull 4 ⟨0, "enrich", 2⟩ [] adaptiveTwo.currentLimit.toNat
      [⟨1, some 10, []⟩, ⟨2, some 20, []⟩])
    (controlled adaptiveTwo slowWriter lateFutures) none (List.replicate 40 .main)

/-- Two records are under way, as many as the limit allows. -/
def twoUnderWay : RunWorld (BufferedState ℕ ℕ) ℕ ℕ :=
  ⟨RunState.initial ⟨[⟨⟨1, some 10, []⟩, some 1, none⟩, ⟨⟨2, some 20, []⟩, some 2, none⟩], 2⟩ none, []⟩

set_option maxRecDepth 8000 in
/-- With two records under way the limit falls from two to one, both records are committed, and the third
one is pulled with nothing in flight.  Three rounds of the loop are as good as any number. -/
theorem adaptiveBackpressure_bounded_slowWriter :
    (slowRun.world.state.lane.BelowLimit ∧ slowRun.world.state.lane.InRange 1 8) ∧
      adaptiveTwo.currentLimit = 2 ∧ slowRun.world.state.lane.stageLimit = 1 ∧
      slowRun.world.state.lane.pendingRecords.length = 0 ∧
      ∀ more, (iterate (adaptive.withBackpressure.limitRecordsRound
          (adaptive.withBackpressure.bufferedVariant ⟨0, "enrich", 2⟩ []) 4) (3 + more) ()).run
            (controlled adaptiveTwo slowWriter lateFutures) twoUnderWay =
        (iterate (adaptive.withBackpressure.limitRecordsRound
          (adaptive.withBackpressure.bufferedVariant ⟨0, "enrich", 2⟩ []) 4) 3 ()).run
            (controlled adaptiveTwo slowWriter lateFutures) twoUnderWay := by
  obtain ⟨-, -, hpull, hloop⟩ := adaptive.adaptiveBackpressure_bounded {}
  have hreached : slowRun.main = .ended (.returned ()) := by with_unfolding_all rfl
  have hlane := hpull ⟨0, "enrich", 2⟩ [] 4 slowWriter lateFutures none
    [⟨1, some 10, []⟩, ⟨2, some 20, []⟩] (List.replicate 40 .main) hreached (by decide +kernel)
  have hrange : twoUnderWay.state.lane.InRange adaptiveTwo.minLimit.toNat
      adaptiveTwo.maxLimit.toNat := ⟨by decide, by decide⟩
  exact ⟨hlane, by decide, by decide +kernel, by decide +kernel,
    ((hloop ⟨0, "enrich", 2⟩ [] 4 slowWriter lateFutures twoUnderWay hrange).2 3 (by decide)).1⟩

end AgoraEtl
