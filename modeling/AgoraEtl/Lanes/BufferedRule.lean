import AgoraEtl.Delivery.Owner
import AgoraEtl.Lanes.Buffered
import AgoraEtl.Lanes.Frame

/-!
# An invariant rule for the buffered lane

`BufferedRule` lists what has to be shown of the few points at which the buffered lane does something
with a record: entering the stage, being taken out of the deque, being handed to the delivery engine,
and a commit that raises.  `BufferedRule.safe_runBuffered` carries it through the loops of the lane,
whatever the pending-write owner does meanwhile.
-/

namespace AgoraEtl

open Effect Program

variable {α χ : Type}

/-- The marks of the buffered lane itself. -/
def Mark.isBuffered : Mark α χ → Bool
  | .dispatched _ _ _ => true
  | .prefixRejected _ => true
  | .commitRaised _ _ _ _ => true
  | _ => false

/-- A mark of another part of the program. -/
def Mark.Quiet (m : Mark α χ) : Prop := m.isBuffered = false

/-- No record is handed over in the events. -/
def Quiet (t : RunTrace α χ) : Prop := ∀ m, .mark m ∈ t → m.Quiet

/-- The empty trace is quiet. -/
theorem quiet_nil : Quiet ([] : RunTrace α χ) := nofun

/-- A quiet mark keeps it quiet. -/
theorem Quiet.mark {t : RunTrace α χ} {m : Mark α χ} (h : Quiet t) (hm : m.Quiet) :
    Quiet (t ++ [.mark m]) := by
  intro m' hm'
  rcases List.mem_append.mp hm' with hm' | hm'
  · exact h m' hm'
  · cases List.mem_singleton.mp hm'
    exact hm

/-- So does a call. -/
theorem Quiet.called {t : RunTrace α χ} (h : Quiet t) (o : Call α χ) (r : o.Ret) :
    Quiet (t ++ [.called o r]) := by
  intro m' hm'
  rcases List.mem_append.mp hm' with hm' | hm'
  · exact h m' hm'
  · cases List.mem_singleton.mp hm'

/-- The marks of the engine are quiet. -/
theorem allowsEngine_quiet : AllowsEngine (Mark.Quiet (α := α) (χ := χ)) :=
  ⟨fun _ _ => rfl, fun _ _ => rfl, fun _ => rfl⟩

/-- The future was found done or was cancelled. -/
def Dealt (f : Future) (t : RunTrace α χ) : Prop :=
  .called (.futureDone f) true ∈ t ∨ .called (.cancelFuture f) () ∈ t

/-- A future that was dealt with stays so. -/
theorem Dealt.append {f : Future} {t : RunTrace α χ} (h : Dealt f t) (t' : RunTrace α χ) :
    Dealt f (t ++ t') :=
  h.imp (List.mem_append_left _) (List.mem_append_left _)

/-- The awaited operations of the lane that can be interrupted once an exception is on its way. -/
def Await.isInterruptible : Await α χ → Bool
  | .sleep => true
  | .gather _ => true
  | _ => false

/-- Updating the objects of the lane leaves the trace alone. -/
theorem safe_modifyBuffered {f : BufferedState α χ → BufferedState α χ}
    {C : Contract (Call α χ) Call.Ret (Mark α χ) (RunState (BufferedState α χ) α χ)}
    {Q : Unit → RunWorld (BufferedState α χ) α χ → RunWorld (BufferedState α χ) α χ → Prop}
    {E : Exc → RunWorld (BufferedState α χ) α χ → RunWorld (BufferedState α χ) α χ → Prop}
    {w₀ w : RunWorld (BufferedState α χ) α χ}
    (h : ∀ w', w'.state.lane = f w.state.lane → w'.trace = w.trace → Q () w₀ w') :
    (ExecutionCoordinator.modifyBuffered f).Safe C Q E w₀ w :=
  h _ rfl rfl

variable [DecidableEq α]

/-- What has to be shown of a variant of the buffered lane, for a stream of records.  The properties
speak about the records consumed so far, the pending records and the trace. -/
structure BufferedRule (c : ExecutionCoordinator α χ) (v : BufferedVariant α χ) (splitIndex : ℕ)
    (records : List (SourceRecord α χ))
    (assume ensure : RunTrace α χ → Event (Call α χ) Call.Ret (Mark α χ) → Prop) where
  /-- Holds between two steps of the lane. -/
  inv : List (SourceRecord α χ) → List (PendingRecord α χ) → RunTrace α χ → Prop
  /-- Holds when a record is about to be handed to the delivery engine. -/
  handing : List (SourceRecord α χ) → List (PendingRecord α χ) → SourceRecord α χ →
    MiddlewareChain.RecordOutcome α → RunTrace α χ → Prop
  /-- Holds once the exception is about to leave the lane, with so many records pending. -/
  raised : Exc → List (PendingRecord α χ) → RunTrace α χ → Prop
  ensure_mark : ∀ {t m}, m.Quiet → assume t (.mark m) → ensure t (.mark m)
  ensure_call : ∀ {t o r}, assume t (.called o r) → ensure t (.called o r)
  inv_mark : ∀ {consumed pending t m}, m.Quiet → inv consumed pending t →
    inv consumed pending (t ++ [.mark m])
  inv_call : ∀ {consumed pending t o r}, inv consumed pending t →
    inv consumed pending (t ++ [.called o r])
  raised_of_inv : ∀ {e consumed pending t}, inv consumed pending t → raised e pending t
  /-- An exception that interrupts the lane on its way out replaces the one on its way. -/
  interrupted : ∀ {e e' pending t t'} {a : Await α χ}, raised e pending t → Quiet t' →
    a.isInterruptible = true → assume (t ++ t') (.called (.await a) (.error e')) →
      raised e' pending t
  enter : ∀ {consumed record rest pending w₀} {w : RunWorld (BufferedState α χ) α χ},
    records = consumed ++ record :: rest → inv consumed pending w.trace →
    (c.enterRecord v splitIndex record).Safe (laneContract assume ensure)
      (fun r _ w' => w'.state.lane = w.state.lane ∧
        match r with
        | .inl outcome => assume w'.trace (.mark (.prefixRejected pending.length)) →
            ensure w'.trace (.mark (.prefixRejected pending.length)) ∧
              handing (consumed ++ [record]) pending record outcome
                (w'.trace ++ [.mark (.prefixRejected pending.length)])
        | .inr entry => inv (consumed ++ [record]) (pending ++ [entry]) w'.trace)
      (fun _ _ w' => w'.state.lane = w.state.lane ∧ inv (consumed ++ [record]) pending w'.trace)
      w₀ w
  collect : ∀ {consumed entry pending w₀} {w : RunWorld (BufferedState α χ) α χ},
    inv consumed (entry :: pending) w.trace →
    (v.collect entry).Safe (laneContract assume ensure)
      (fun outcome _ w' => w'.state.lane = w.state.lane ∧
        handing consumed pending entry.sourceRecord outcome w'.trace)
      (fun _ _ w' => w'.state.lane = w.state.lane ∧ inv consumed pending w'.trace) w₀ w
  dispatch : ∀ {consumed pending record} {outcome : MiddlewareChain.RecordOutcome α} {t},
    handing consumed pending record outcome t →
    assume t (.mark (.dispatched record outcome.1 outcome.2)) →
    ensure t (.mark (.dispatched record outcome.1 outcome.2)) ∧
      inv consumed pending (t ++ [.mark (.dispatched record outcome.1 outcome.2)])
  commitFailed : ∀ {consumed e streaming queued} {b : BufferedState α χ} {t},
    inv consumed b.pendingRecords t → assume t (.mark (.commitRaised e streaming b.futures queued)) →
    ensure t (.mark (.commitRaised e streaming b.futures queued)) ∧
      raised e b.pendingRecords (t ++ [.mark (.commitRaised e streaming b.futures queued)]) ∧
      (streaming = true → mustAbortPendingWork e = false →
        inv consumed b.pendingRecords (t ++ [.mark (.commitRaised e streaming b.futures queued)]) ∨
          (b.pendingRecords = [] ∧ queued = false))

namespace BufferedRule

open ExecutionCoordinator

variable {c : ExecutionCoordinator α χ} {v : BufferedVariant α χ} {splitIndex : ℕ}
  {records : List (SourceRecord α χ)}
  {assume ensure : RunTrace α χ → Event (Call α χ) Call.Ret (Mark α χ) → Prop}
  (R : BufferedRule c v splitIndex records assume ensure)

/-- The invariant holds of the deque of the lane. -/
def Resting (consumed : List (SourceRecord α χ)) (w : RunWorld (BufferedState α χ) α χ) : Prop :=
  R.inv consumed w.state.lane.pendingRecords w.trace

/-- An exception is on its way out of the streaming loop: if it does not abort, then the invariant
still holds or nothing is left to do. -/
def Left (streaming : Bool) (e : Exc) (w : RunWorld (BufferedState α χ) α χ) : Prop :=
  R.raised e w.state.lane.pendingRecords w.trace ∧
    (streaming = true → mustAbortPendingWork e = false → (∃ consumed, R.Resting consumed w) ∨
      (w.state.lane.pendingRecords = [] ∧ hasQueued w.state = false))

/-- An exception is on its way out of the lane, and these futures have been dealt with. -/
def Leaving (e : Exc) (pending : List (PendingRecord α χ)) (done : List Future)
    (t : RunTrace α χ) : Prop :=
  ∃ t₁ t₂, t = t₁ ++ t₂ ∧ R.raised e pending t₁ ∧ Quiet t₂ ∧ ∀ f ∈ done, Dealt f t₂

/-- The exception leaves the lane, and all futures that were pending have been dealt with. -/
def Ended (e : Exc) (t : RunTrace α χ) : Prop :=
  ∃ pending, R.Leaving e pending ((pending.map PendingRecord.future).filterMap id) t

/-- A lane at rest may be left. -/
theorem Resting.left {consumed : List (SourceRecord α χ)} {streaming : Bool} {e : Exc}
    {w : RunWorld (BufferedState α χ) α χ} (h : R.Resting consumed w) : R.Left streaming e w :=
  ⟨R.raised_of_inv h, fun _ _ => .inl ⟨consumed, h⟩⟩

/-- Quiet marks may be left on the way out. -/
theorem Leaving.mark {e : Exc} {pending : List (PendingRecord α χ)} {done : List Future}
    {t : RunTrace α χ} {m : Mark α χ} (hm : m.Quiet) (h : R.Leaving e pending done t) :
    R.Leaving e pending done (t ++ [.mark m]) := by
  obtain ⟨t₁, t₂, rfl, hraised, hquiet, hdone⟩ := h
  exact ⟨t₁, t₂ ++ [.mark m], List.append_assoc _ _ _, hraised, hquiet.mark hm,
    fun f hf => (hdone f hf).append _⟩

/-- So may calls be made. -/
theorem Leaving.called {e : Exc} {pending : List (PendingRecord α χ)} {done : List Future}
    {t : RunTrace α χ} {o : Call α χ} {r : o.Ret} (h : R.Leaving e pending done t) :
    R.Leaving e pending done (t ++ [.called o r]) := by
  obtain ⟨t₁, t₂, rfl, hraised, hquiet, hdone⟩ := h
  exact ⟨t₁, t₂ ++ [.called o r], List.append_assoc _ _ _, hraised, hquiet.called o r,
    fun f hf => (hdone f hf).append _⟩

/-- The way out begins where an error is raised. -/
theorem Leaving.of_raised {e : Exc} {pending : List (PendingRecord α χ)} {t : RunTrace α χ}
    (h : R.raised e pending t) : R.Leaving e pending [] t :=
  ⟨t, [], (List.append_nil t).symm, h, quiet_nil, nofun⟩

/-- The exception that interrupts an operation of the lane replaces the one on its way. -/
theorem Leaving.interrupted {e e' : Exc} {pending : List (PendingRecord α χ)} {done : List Future}
    {t : RunTrace α χ} {a : Await α χ} (ha : a.isInterruptible = true)
    (h : R.Leaving e pending done t) (hassume : assume t (.called (.await a) (.error e'))) :
    R.Leaving e' pending done (t ++ [.called (.await a) (.error e')]) := by
  obtain ⟨t₁, t₂, rfl, hraised, hquiet, hdone⟩ := h
  have hraised' := R.interrupted hraised hquiet ha hassume
  exact Leaving.called R ⟨t₁, t₂, rfl, hraised', hquiet, hdone⟩

section Steps

variable {w₀ w : RunWorld (BufferedState α χ) α χ}

include R in
/-- Programs that hand over no record keep the lane and what is known of the trace. -/
theorem safe_quiet {β : Type} {T : RunTrace α χ → Prop}
    (hTmark : ∀ t m, m.Quiet → T t → T (t ++ [.mark m]))
    (hTcall : ∀ t o r, T t → T (t ++ [.called o r]))
    {p : BufferedDelivery α χ β} (hp : p.Within (laneFrame _ Mark.Quiet)) (hw : T w.trace) :
    p.Safe (laneContract assume ensure)
      (fun _ _ w' => w'.state.lane = w.state.lane ∧ T w'.trace)
      (fun _ _ w' => w'.state.lane = w.state.lane ∧ T w'.trace) w₀ w :=
  safe_laneFrame allowsEngine_quiet (fun _ _ => R.ensure_mark) (fun _ _ _ => R.ensure_call) hTmark
    hTcall hp hw

include R in
/-- A call of the lane is answered after the owner may have run. -/
theorem safe_call {T : RunTrace α χ → Prop}
    (hTmark : ∀ t m, m.Quiet → T t → T (t ++ [.mark m]))
    (hTcall : ∀ t o r, T t → T (t ++ [.called o r])) (hw : T w.trace) (o : Call α χ)
    {Q : o.Ret → RunWorld (BufferedState α χ) α χ → RunWorld (BufferedState α χ) α χ → Prop}
    {E : Exc → RunWorld (BufferedState α χ) α χ → RunWorld (BufferedState α χ) α χ → Prop}
    (hQ : ∀ w₁ r, Background w w₁ → T w₁.trace → assume w₁.trace (.called o r) →
      Q r w₁ (w₁.called o r)) :
    (perform o : BufferedDelivery α χ o.Ret).Safe (laneContract assume ensure) Q E w₀ w := by
  refine safe_perform.mpr ⟨trivial, fun w₁ hback r _ hassume => ?_⟩
  have hT := hback.keeps (fun t m hm => hTmark t m (allowsEngine_quiet.of_isDelivery hm)) hTcall hw
  exact ⟨R.ensure_call hassume, hQ w₁ r hback hT hassume⟩

include R in
/-- An awaited operation of the lane is a call that may raise. -/
theorem safe_await {T : RunTrace α χ → Prop}
    (hTmark : ∀ t m, m.Quiet → T t → T (t ++ [.mark m]))
    (hTcall : ∀ t o r, T t → T (t ++ [.called o r])) (hw : T w.trace) (a : Await α χ)
    {Q : a.Value → RunWorld (BufferedState α χ) α χ → RunWorld (BufferedState α χ) α χ → Prop}
    {E : Exc → RunWorld (BufferedState α χ) α χ → RunWorld (BufferedState α χ) α χ → Prop}
    (hQ : ∀ w₁ v, Background w w₁ → T w₁.trace →
      Q v w₁ (w₁.called (.await a) (.ok v)))
    (hE : ∀ w₁ e, Background w w₁ → T w₁.trace → assume w₁.trace (.called (.await a) (.error e)) →
      E e w₁ (w₁.called (.await a) (.error e))) :
    (invoke a : BufferedDelivery α χ a.Value).Safe (laneContract assume ensure) Q E w₀ w := by
  unfold invoke
  rw [safe_bind]
  refine R.safe_call hTmark hTcall hw (.await a) fun w₁ r hback hT hassume => ?_
  cases r with
  | ok v => exact hQ w₁ v hback hT
  | error e => exact hE w₁ e hback hT hassume

/-- An awaited operation of the lane between two steps. -/
theorem safe_restingAwait {consumed : List (SourceRecord α χ)} (hw : R.Resting consumed w)
    (a : Await α χ) {streaming : Bool} :
    (invoke a : BufferedDelivery α χ a.Value).Safe (laneContract assume ensure)
      (fun _ _ w' => R.Resting consumed w' ∧ w'.state.lane = w.state.lane)
      (fun e _ w' => R.Left streaming e w') w₀ w := by
  have hnext : ∀ w₁ r, Background w w₁ →
      R.inv consumed w.state.lane.pendingRecords w₁.trace →
      R.Resting consumed (w₁.called (.await a) r) := by
    intro w₁ r hback hinv
    unfold Resting
    rw [World.called_state, hback.lane]
    exact R.inv_call hinv
  refine R.safe_await (fun _ _ hm => R.inv_mark hm) (fun _ _ _ => R.inv_call) hw a
    (fun w₁ v hback hinv => ?_) fun w₁ e hback hinv _ => ?_
  · exact ⟨hnext w₁ _ hback hinv, hback.lane⟩
  · exact Resting.left R (hnext w₁ _ hback hinv)

/-! ## Committing one record -/

/-- A commit that raises is noted. -/
theorem safe_committing {streaming : Bool} (consumed : List (SourceRecord α χ))
    {P : RunWorld (BufferedState α χ) α χ → Prop} {p : BufferedDelivery α χ Unit}
    (hp : p.Safe (laneContract assume ensure)
      (fun _ _ w' => P w') (fun _ _ w' => R.Resting consumed w') w₀ w) :
    (committing streaming p).Safe (laneContract assume ensure)
      (fun _ _ w' => P w') (fun e _ w' => R.Left streaming e w') w₀ w := by
  unfold committing
  rw [safe_bind, safe_attempt]
  refine hp.mono (fun _ _ w' hw' => hw') fun e w₁ w' hw' => ?_
  dsimp only
  rw [safe_bind, safe_read, safe_bind, safe_note]
  intro hassume
  obtain ⟨hensure, hraised, hrest⟩ := R.commitFailed hw' hassume
  refine ⟨hensure, hraised, fun hs habort => ?_⟩
  rcases hrest hs habort with hinv | hidle
  · exact .inl ⟨consumed, hinv⟩
  · exact .inr hidle

variable [DecidableEq χ]

/-- Handing a record to the delivery engine. -/
theorem safe_dispatchRecord {fuel : ℕ} {consumed : List (SourceRecord α χ)}
    {pending : List (PendingRecord α χ)} {record : SourceRecord α χ}
    {outcome : MiddlewareChain.RecordOutcome α}
    (hw : R.handing consumed pending record outcome w.trace) :
    (c.dispatchRecord fuel record outcome).Safe (laneContract assume ensure)
      (fun _ _ w' => w'.state.lane = w.state.lane ∧ R.inv consumed pending w'.trace)
      (fun _ _ w' => w'.state.lane = w.state.lane ∧ R.inv consumed pending w'.trace) w₀ w := by
  unfold dispatchRecord
  rw [safe_bind, safe_note]
  intro hassume
  obtain ⟨hensure, hinv⟩ := R.dispatch hw hassume
  refine ⟨hensure, ?_⟩
  have hframe := c.delivery.within_dispatchProcessedResult (ℓ := BufferedState α χ)
    allowsEngine_quiet fuel outcome.1 record.raw record.checkpoint c.writerBatchSize outcome.2
    record.onSuccess
  exact R.safe_quiet (w := w.mark _) (fun _ _ hm => R.inv_mark hm) (fun _ _ _ => R.inv_call) hframe
    hinv

/-- Taking a record out of the deque and resolving it. -/
theorem safe_takeBufferedRecord {fuel : ℕ} {streaming : Bool} {consumed : List (SourceRecord α χ)}
    {entry : PendingRecord α χ} {pending : List (PendingRecord α χ)}
    (hentry : w.state.lane.pendingRecords = entry :: pending) (hw : R.Resting consumed w) :
    (c.takeBufferedRecord v fuel streaming entry).Safe (laneContract assume ensure)
      (fun _ _ w' => R.Resting consumed w') (fun e _ w' => R.Left streaming e w') w₀ w := by
  unfold takeBufferedRecord resolveBufferedRecord
  rw [safe_bind]
  refine safe_modifyBuffered fun w₂ hlane₂ htrace => ?_
  refine R.safe_committing consumed ?_
  have hinv : R.inv consumed (entry :: pending) w₂.trace := by
    unfold Resting at hw
    rwa [hentry, ← htrace] at hw
  have hresting : ∀ w' : RunWorld (BufferedState α χ) α χ, w'.state.lane = w₂.state.lane →
      R.inv consumed pending w'.trace → R.Resting consumed w' := by
    intro w' hlane hinv'
    unfold Resting
    rw [hlane, hlane₂, hentry]
    exact hinv'
  rw [safe_bind]
  refine (R.collect hinv).mono (fun outcome w₁ w' hw' => ?_) fun e w₁ w' hw' => ?_
  · obtain ⟨hlane, hhanding⟩ := hw'
    refine (R.safe_dispatchRecord hhanding).mono (fun _ _ w'' hw'' => ?_) fun _ _ w'' hw'' => ?_
    · exact hresting w'' (hw''.1.trans hlane) hw''.2
    · exact hresting w'' (hw''.1.trans hlane) hw''.2
  · exact hresting w' hw'.1 hw'.2

/-! ## Loops -/

/-- `_drain_ready_*_buffered_records`. -/
theorem safe_drainReadyRecords {fuel : ℕ} {streaming : Bool} {consumed : List (SourceRecord α χ)}
    (hw : R.Resting consumed w) :
    (c.drainReadyRecords v fuel streaming).Safe (laneContract assume ensure)
      (fun _ _ w' => R.Resting consumed w') (fun e _ w' => R.Left streaming e w') w₀ w := by
  refine safe_iterate (I := fun _ _ w' => R.Resting consumed w') trivial
    (fun _ w₀ w hw => ?_) fuel hw
  unfold drainReadyRound
  rw [safe_bind, safe_read]
  cases hentry : w.state.lane.pendingRecords with
  | nil => exact hw
  | cons entry pending =>
    dsimp only
    have htake : ∀ w₀ w' : RunWorld (BufferedState α χ) α χ, R.Resting consumed w' →
        w'.state.lane.pendingRecords = entry :: pending →
        (do c.takeBufferedRecord v fuel streaming entry; pure (.inl ()) :
          BufferedDelivery α χ (Unit ⊕ Unit)).Safe (laneContract assume ensure)
          (fun r _ w => r.elim (fun _ => R.Resting consumed w) fun _ => R.Resting consumed w)
          (fun e _ w' => R.Left streaming e w') w₀ w' := by
      intro w₀ w' hw' hentry'
      rw [safe_bind]
      exact R.safe_takeBufferedRecord hentry' hw'
    cases entry.future with
    | none =>
      rw [safe_bind]
      exact htake w₀ w hw hentry
    | some future =>
      rw [safe_bind]
      refine R.safe_call (fun _ _ hm => R.inv_mark hm) (fun _ _ _ => R.inv_call) hw
        (.futureDone future) fun w₁ done hback hinv _ => ?_
      have hw₁ : R.Resting consumed (w₁.called (.futureDone future) done) := by
        unfold Resting
        rw [World.called_state, hback.lane]
        exact R.inv_call hinv
      cases done with
      | false => exact hw₁
      | true =>
        refine htake _ _ hw₁ ?_
        rw [World.called_state, hback.lane]
        exact hentry

/-- `_commit_next_*_buffered_record`. -/
theorem safe_commitNextRecord {fuel : ℕ} {streaming : Bool} {consumed : List (SourceRecord α χ)}
    (hw : R.Resting consumed w) :
    (c.commitNextRecord v fuel streaming).Safe (laneContract assume ensure)
      (fun _ _ w' => R.Resting consumed w') (fun e _ w' => R.Left streaming e w') w₀ w := by
  unfold commitNextRecord
  rw [safe_bind, safe_read]
  cases hentry : w.state.lane.pendingRecords with
  | nil => exact hw
  | cons entry pending => exact R.safe_takeBufferedRecord hentry hw

omit [DecidableEq χ] in
/-- The controller changes only the limit. -/
theorem safe_observeLimit {n : ℕ} {consumed : List (SourceRecord α χ)} (hw : R.Resting consumed w) :
    (c.observeLimit n).Safe (laneContract assume ensure)
      (fun _ _ w' => R.Resting consumed w') (fun e _ w' => R.Left true e w') w₀ w := by
  unfold observeLimit
  split
  · rw [safe_bind]
    refine R.safe_call (fun _ _ hm => R.inv_mark hm) (fun _ _ _ => R.inv_call) hw
      (.observeLimit n) fun w₁ limit hback hinv _ => ?_
    change R.inv consumed w₁.state.lane.pendingRecords _
    rw [hback.lane]
    exact R.inv_call hinv
  · exact hw

/-- The loop that keeps the number of pending records under the limit. -/
theorem safe_limitRecords {fuel : ℕ} {consumed : List (SourceRecord α χ)}
    (hw : R.Resting consumed w) :
    (iterate (c.limitRecordsRound v fuel) fuel ()).Safe (laneContract assume ensure)
      (fun _ _ w' => R.Resting consumed w') (fun e _ w' => R.Left true e w') w₀ w := by
  refine safe_iterate (I := fun _ _ w' => R.Resting consumed w') trivial
    (fun _ w₀ w hw => ?_) fuel hw
  unfold limitRecordsRound
  rw [safe_bind, safe_read]
  split
  · exact hw
  rw [safe_bind]
  refine (R.safe_observeLimit hw).mono (fun _ w₁ w' hw' => ?_) fun _ _ _ he => he
  rw [safe_bind]
  refine (R.safe_drainReadyRecords hw').mono (fun _ w₁ w' hw' => ?_) fun _ _ _ he => he
  rw [safe_bind, safe_read]
  split
  · exact hw'
  rw [safe_bind]
  exact R.safe_commitNextRecord hw'

/-- The body of the streaming loop consumes one record. -/
theorem safe_streamRecord {fuel : ℕ} {consumed rest : List (SourceRecord α χ)}
    {record : SourceRecord α χ} (hrecords : records = consumed ++ record :: rest)
    (hw : R.Resting consumed w) :
    (c.streamRecord v fuel splitIndex record).Safe (laneContract assume ensure)
      (fun _ _ w' => R.Resting (consumed ++ [record]) w') (fun e _ w' => R.Left true e w') w₀ w := by
  unfold streamRecord
  rw [safe_bind]
  have hconsume : (consume 1 : BufferedDelivery α χ Unit).Within (laneFrame _ Mark.Quiet) :=
    DeliveryEngine.within_lane_of_delivery (within_consume 1)
  refine (R.safe_quiet (fun _ _ hm => R.inv_mark hm) (fun _ _ _ => R.inv_call) hconsume hw).mono
    (fun _ w₁ w' hw' => ?_) fun _ _ w' hw' => ?_
  · rw [safe_bind]
    refine safe_modify_of fun w₂ hstate htrace => ?_
    have hlane : w₂.state.lane = w.state.lane := by
      rw [hstate]
      exact hw'.1
    have hinv := hw'.2
    rw [← htrace] at hinv
    rw [safe_bind]
    refine (R.enter hrecords hinv).mono (fun r w₂ w'' hw'' => ?_) fun e _ w'' hw'' => ?_
    · obtain ⟨hlane', hr⟩ := hw''
      have hpending : w''.state.lane.pendingRecords = w.state.lane.pendingRecords := by
        rw [hlane', hlane]
      cases r with
      | inl outcome =>
        dsimp only at hr ⊢
        rw [safe_bind, safe_read, safe_bind, safe_note, hpending]
        intro hassume
        obtain ⟨hensure, hhanding⟩ := hr hassume
        refine ⟨hensure, R.safe_committing (consumed ++ [record]) ?_⟩
        have hresting : ∀ w₃ : RunWorld (BufferedState α χ) α χ,
            w₃.state.lane = w''.state.lane →
            R.inv (consumed ++ [record]) w.state.lane.pendingRecords w₃.trace →
            R.Resting (consumed ++ [record]) w₃ := by
          intro w₃ hlane₃ hinv₃
          unfold Resting
          rw [hlane₃, hpending]
          exact hinv₃
        refine (R.safe_dispatchRecord hhanding).mono (fun _ _ w₃ hw₃ => ?_) fun _ _ w₃ hw₃ => ?_
        · exact hresting w₃ hw₃.1 hw₃.2
        · exact hresting w₃ hw₃.1 hw₃.2
      | inr entry =>
        dsimp only at hr ⊢
        rw [safe_bind]
        refine safe_modifyBuffered fun w₃ hlane₃ htrace₃ => R.safe_limitRecords ?_
        unfold Resting
        rw [hlane₃, htrace₃, hpending]
        exact hr
    · have hresting : R.Resting (consumed ++ [record]) w'' := by
        unfold Resting
        rw [hw''.1, hlane]
        exact hw''.2
      exact Resting.left R hresting
  · have hresting : R.Resting consumed w' := by
      unfold Resting
      rw [hw'.1]
      exact hw'.2
    exact Resting.left R hresting

/-! ## Aborting -/

omit [DecidableEq χ] in
/-- Cancelling futures deals with each of them. -/
theorem safe_cancelFutures {e : Exc} {pending : List (PendingRecord α χ)}
    (futures done : List Future) {w₀ w : RunWorld (BufferedState α χ) α χ}
    (hw : R.Leaving e pending done w.trace) :
    (PipelinedVariant.cancelFutures futures : BufferedDelivery α χ Unit).Safe
      (laneContract assume ensure)
      (fun _ _ w' => R.Leaving e pending (done ++ futures) w'.trace)
      (fun _ _ _ => False) w₀ w := by
  induction futures generalizing done w₀ w with
  | nil => simpa [PipelinedVariant.cancelFutures] using hw
  | cons future futures ih =>
    unfold PipelinedVariant.cancelFutures
    rw [safe_bind]
    refine R.safe_call (fun _ _ hm h => Leaving.mark R hm h) (fun _ _ _ h => Leaving.called R h) hw
      (.futureDone future) fun w₁ answer hback hT _ => ?_
    have hrest : ∀ w₀ w' : RunWorld (BufferedState α χ) α χ,
        R.Leaving e pending (done ++ [future]) w'.trace →
        (PipelinedVariant.cancelFutures futures : BufferedDelivery α χ Unit).Safe
          (laneContract assume ensure)
          (fun _ _ w' => R.Leaving e pending (done ++ future :: futures) w'.trace)
          (fun _ _ _ => False) w₀ w' := by
      intro w₀ w' hw'
      have hrest := @ih (done ++ [future]) w₀ w' hw'
      simpa using hrest
    cases answer with
    | true =>
      refine hrest _ _ ?_
      obtain ⟨t₁, t₂, ht, hraised, hquiet, hdone⟩ := hT
      refine ⟨t₁, t₂ ++ [.called (.futureDone future) true], ?_, hraised, hquiet.called _ _, ?_⟩
      · rw [World.called_trace, ht, List.append_assoc]
      · intro f hf
        rcases List.mem_append.mp hf with hf | hf
        · exact (hdone f hf).append _
        · rw [List.mem_singleton.mp hf]
          exact .inl (by simp)
    | false =>
      change ((perform (Call.cancelFuture future) : BufferedDelivery α χ _) >>= fun _ =>
        PipelinedVariant.cancelFutures futures).Safe _ _ _ _ _
      rw [safe_bind]
      refine R.safe_call (fun _ _ hm h => Leaving.mark R hm h) (fun _ _ _ h => Leaving.called R h)
        (Leaving.called R hT) (.cancelFuture future) fun w₂ u hback hT' _ => hrest _ _ ?_
      obtain ⟨t₁, t₂, ht, hraised, hquiet, hdone⟩ := hT'
      refine ⟨t₁, t₂ ++ [.called (.cancelFuture future) ()], ?_, hraised, hquiet.called _ _, ?_⟩
      · rw [World.called_trace, ht, List.append_assoc]
      · intro f hf
        rcases List.mem_append.mp hf with hf | hf
        · exact (hdone f hf).append _
        · rw [List.mem_singleton.mp hf]
          exact .inr (by simp)

omit [DecidableEq χ] in
/-- Aborting deals with all pending futures; it raises only if it is interrupted. -/
theorem safe_abortPendingWork {e : Exc}
    (hw : R.Leaving e w.state.lane.pendingRecords [] w.trace) :
    (abortPendingWork : BufferedDelivery α χ Unit).Safe (laneContract assume ensure)
      (fun _ _ w' => R.Ended e w'.trace) (fun e' _ w' => R.Ended e' w'.trace) w₀ w := by
  unfold abortPendingWork
  rw [safe_bind]
  refine safe_modify_of fun w₂ hstate htrace => ?_
  have hlane₂ : w₂.state.lane = w.state.lane := by rw [hstate]
  rw [← htrace] at hw
  rw [safe_bind, safe_attempt]
  have hclose : (DeliveryEngine.closePendingWriteOwner : BufferedDelivery α χ Unit).Within
      (laneFrame _ Mark.Quiet) := DeliveryEngine.within_closePendingWriteOwner
  have hrest : ∀ w₀ w' : RunWorld (BufferedState α χ) α χ, w'.state.lane = w.state.lane →
      R.Leaving e w.state.lane.pendingRecords [] w'.trace →
      (do
        let s ← read
        modifyBuffered fun b => { b with pendingRecords := [] }
        let futures := s.lane.futures.filterMap id
        PipelinedVariant.cancelFutures futures
        if futures.isEmpty then pure () else invoke (.gather futures) :
          BufferedDelivery α χ Unit).Safe (laneContract assume ensure)
        (fun _ _ w' => R.Ended e w'.trace) (fun e' _ w' => R.Ended e' w'.trace) w₀ w' := by
    intro w₀ w' hlane hleaving
    rw [safe_bind, safe_read, safe_bind]
    refine safe_modifyBuffered fun w₂ _ htrace => ?_
    rw [← htrace] at hleaving
    rw [safe_bind]
    refine (R.safe_cancelFutures (w'.state.lane.futures.filterMap id) [] hleaving).mono (fun _ w₁ w'' hw'' => ?_)
      fun _ _ _ hf => hf.elim
    rw [List.nil_append] at hw''
    have hfutures : w'.state.lane.futures = w.state.lane.pendingRecords.map PendingRecord.future := by
      rw [hlane]
      rfl
    rw [hfutures] at hw'' ⊢
    split
    · exact ⟨_, hw''⟩
    · refine R.safe_await (fun _ _ hm h => Leaving.mark R hm h)
        (fun _ _ _ h => Leaving.called R h) hw'' _ (fun w₂ u _ hT => ?_) fun w₂ e' _ hT ha => ?_
      · exact ⟨_, Leaving.called R hT⟩
      · exact ⟨_, Leaving.interrupted R rfl hT ha⟩
  refine (R.safe_quiet (fun _ _ hm h => Leaving.mark R hm h) (fun _ _ _ h => Leaving.called R h) hclose
    hw).mono (fun _ w₁ w' hw' => ?_) fun _ w₁ w' hw' => ?_
  · exact hrest _ _ (hw'.1.trans hlane₂) hw'.2
  · exact hrest _ _ (hw'.1.trans hlane₂) hw'.2

/-! ## Draining -/

/-- The loop that drains the pending records. -/
theorem safe_drainRecords {fuel : ℕ} {consumed : List (SourceRecord α χ)}
    (hw : R.Resting consumed w) :
    (iterate (c.drainRecordsRound v fuel) fuel ()).Safe (laneContract assume ensure)
      (fun _ _ w' => R.Resting consumed w' ∧ w'.state.lane.pendingRecords = [])
      (fun e _ w' => R.Left false e w') w₀ w := by
  refine safe_iterate (I := fun _ _ w' => R.Resting consumed w') trivial
    (fun _ w₀ w hw => ?_) fuel hw
  unfold drainRecordsRound
  rw [safe_bind, safe_read]
  split
  · rename_i hempty
    exact ⟨hw, List.isEmpty_iff.mp hempty⟩
  rw [safe_bind]
  refine (R.safe_restingAwait hw .drainBuffered).mono (fun _ w₁ w' hw' => ?_) fun _ _ _ he => he
  rw [safe_bind]
  refine (R.safe_restingAwait hw'.1 .sleep).mono (fun _ w₁ w' hw' => ?_) fun _ _ _ he => he
  rw [safe_bind]
  refine (R.safe_drainReadyRecords hw'.1).mono (fun _ w₁ w' hw' => ?_) fun _ _ _ he => he
  rw [safe_bind, safe_read]
  split
  · rename_i hempty
    exact ⟨hw', List.isEmpty_iff.mp hempty⟩
  rw [safe_bind]
  exact R.safe_commitNextRecord hw'

/-- Any exception while the lane drains aborts it. -/
theorem safe_drainPendingRecords_of {fuel : ℕ} {Q : RunWorld (BufferedState α χ) α χ → Prop}
    (hdrain : (do
        invoke .sleep
        iterate (c.drainRecordsRound v fuel) fuel ()
        committing false c.delivery.flushPendingWrites : BufferedDelivery α χ Unit).Safe
      (laneContract assume ensure) (fun _ _ w' => Q w')
      (fun e _ w' => R.Leaving e w'.state.lane.pendingRecords [] w'.trace) w₀ w) :
    (c.drainPendingRecords v fuel).Safe (laneContract assume ensure)
      (fun _ _ w' => Q w') (fun e _ w' => R.Ended e w'.trace) w₀ w := by
  unfold drainPendingRecords
  rw [safe_bind, safe_attempt]
  refine hdrain.mono (fun _ _ w' hw' => hw') fun e w₁ w' hw' => ?_
  dsimp only
  rw [safe_bind]
  exact (R.safe_abortPendingWork hw').mono (fun _ _ _ h => h) fun _ _ _ h => h

/-- Draining the pending records of a resting lane. -/
theorem safe_drainPendingRecords {fuel : ℕ} {consumed : List (SourceRecord α χ)}
    (hw : R.Resting consumed w) :
    (c.drainPendingRecords v fuel).Safe (laneContract assume ensure)
      (fun _ _ w' => R.inv consumed [] w'.trace) (fun e _ w' => R.Ended e w'.trace) w₀ w := by
  refine R.safe_drainPendingRecords_of ?_
  have hleft : ∀ e (w₀ w' : RunWorld (BufferedState α χ) α χ), R.Left false e w' →
      R.Leaving e w'.state.lane.pendingRecords [] w'.trace :=
    fun e w₀ w' h => Leaving.of_raised R h.1
  rw [safe_bind]
  refine (R.safe_restingAwait hw .sleep).mono (fun _ w₁ w' hw' => ?_) hleft
  rw [safe_bind]
  refine (R.safe_drainRecords hw'.1).mono (fun _ w₁ w' hw' => ?_) hleft
  obtain ⟨hresting, hnil⟩ := hw'
  have hflush : c.delivery.flushPendingWrites.Within (laneFrame (BufferedState α χ) Mark.Quiet) :=
    c.delivery.within_flushPendingWrites allowsEngine_quiet
  refine (R.safe_committing consumed (P := fun w' => R.inv consumed [] w'.trace) ?_).mono
    (fun _ _ _ h => h) hleft
  refine (R.safe_quiet (fun _ _ hm => R.inv_mark hm) (fun _ _ _ => R.inv_call) hflush
    hresting).mono (fun _ _ w'' hw'' => ?_) fun _ _ w'' hw'' => ?_
  · rw [hnil] at hw''
    exact hw''.2
  · unfold Resting
    rw [hw''.1]
    exact hw''.2

/-- A lane with nothing pending and nothing queued has nothing to drain. -/
theorem safe_drainPendingRecords_idle {fuel : ℕ} {e : Exc}
    (hpending : w.state.lane.pendingRecords = []) (hqueued : hasQueued w.state = false)
    (hw : R.raised e [] w.trace) :
    (c.drainPendingRecords v fuel).Safe (laneContract assume ensure)
      (fun _ _ w' => R.Ended e w'.trace) (fun e' _ w' => R.Ended e' w'.trace) w₀ w := by
  refine R.safe_drainPendingRecords_of ?_
  rw [safe_bind]
  refine R.safe_await (fun _ _ hm h => Leaving.mark R hm h) (fun _ _ _ h => Leaving.called R h)
    (Leaving.of_raised R hw) .sleep (fun w₁ u hback hT => ?_) fun w₁ e' hback hT ha => ?_
  · have hempty : w₁.state.lane.pendingRecords.isEmpty = true := by
      rw [hback.lane, hpending]
      rfl
    have hqueue : w.state.pendingWrites = [] ∧ w.state.pendingWriteOwner = none := by
      simpa [hasQueued] using hqueued
    have howner : w₁.state.pendingWriteOwner.isNone = true := by
      rw [← Option.not_isSome, hback.owner, hqueue.2]
      rfl
    have hwrites : w₁.state.pendingWrites.isEmpty = true := by
      rcases hback.queue with hsame | hnil
      · rw [hsame, hqueue.1]
        rfl
      · rw [hnil]
        rfl
    have hleaving : R.Leaving e [] [] (w₁.called (.await .sleep) (.ok u)).trace :=
      Leaving.called R hT
    rw [safe_bind]
    cases fuel with
    | zero => trivial
    | succ fuel =>
      change (Program.bind (c.drainRecordsRound v _ ()) _).Safe _ _ _ _ _
      rw [← bind_eq, safe_bind]
      unfold drainRecordsRound
      simp only [safe_bind, safe_read, World.called_state, hempty, if_true, pure_eq_ret, safe_ret]
      unfold committing DeliveryEngine.flushPendingWrites DeliveryEngine.closePendingWriteOwner
        DeliveryEngine.flushPendingWritesOnce
      simp only [safe_bind, safe_attempt, safe_read, World.called_state, howner, hwrites, if_true,
        pure_eq_ret, safe_ret]
      exact ⟨[], hleaving⟩
  · have hlane : (w₁.called (.await .sleep) (.error e')).state.lane.pendingRecords = [] := by
      rw [World.called_state, hback.lane, hpending]
    rw [hlane]
    exact Leaving.interrupted R rfl hT ha

/-! ## The whole lane -/

/-- The rule for one variant of the lane. -/
theorem safe_runBuffered {fuel : ℕ} (hpending : w.state.lane.pendingRecords = [])
    (hstart : R.inv [] [] w.trace) :
    (c.runBuffered v fuel splitIndex records).Safe (laneContract assume ensure)
      (fun _ _ w' => R.inv records [] w'.trace) (fun e _ w' => R.Ended e w'.trace) w₀ w := by
  have hresting : R.Resting [] w := by
    unfold Resting
    rw [hpending]
    exact hstart
  have hstream : (forEach (c.streamRecord v fuel splitIndex) records).Safe
      (laneContract assume ensure) (fun _ _ w' => R.Resting records w')
      (fun e _ w' => R.Left true e w') w₀ w := by
    refine safe_forEach (I := fun consumed _ w' => R.Resting consumed w')
      (fun consumed w₀ w' hw' => ?_) (fun consumed record rest w₀ w' hrecords hw' => ?_) hresting
    · exact (R.safe_restingAwait hw' .sourceNext).mono (fun _ _ _ h => h.1) fun _ _ _ h => h
    · exact R.safe_streamRecord hrecords hw'
  unfold runBuffered hotFlush
  rw [safe_bind, safe_attempt]
  refine hstream.mono (fun _ w₁ w' hw' => ?_) fun e w₁ w' hw' => ?_
  · rw [safe_bind]
    refine safe_modify_of fun w₂ hstate htrace => R.safe_drainPendingRecords ?_
    unfold Resting
    rw [hstate, htrace]
    exact hw'
  · rw [safe_bind]
    refine safe_modify_of fun w₂ hstate htrace => ?_
    have hlane : w₂.state.lane = w'.state.lane := by rw [hstate]
    obtain ⟨hraised, hrest⟩ := hw'
    rw [← hlane, ← htrace] at hraised
    dsimp only
    split
    · rw [safe_bind]
      exact (R.safe_abortPendingWork (Leaving.of_raised R hraised)).mono (fun _ _ _ h => h)
        fun _ _ _ h => h
    · rename_i habort
      rw [safe_bind]
      rcases hrest rfl (Bool.eq_false_iff.mpr habort) with ⟨consumed, hinv⟩ | ⟨hnil, hqueued⟩
      · have hresting : R.Resting consumed w₂ := by
          unfold Resting
          rw [hlane, htrace]
          exact hinv
        refine (R.safe_drainPendingRecords hresting).mono (fun _ _ w'' hw'' => ?_)
          fun _ _ _ h => h
        exact ⟨[], Leaving.of_raised R (R.raised_of_inv hw'')⟩
      · have hnil₂ : w₂.state.lane.pendingRecords = [] := by rw [hlane, hnil]
        have hqueued₂ : hasQueued w₂.state = false := by rw [hstate]; exact hqueued
        rw [hnil₂] at hraised
        exact (R.safe_drainPendingRecords_idle hnil₂ hqueued₂ hraised).mono (fun _ _ _ h => h)
          fun _ _ _ h => h

end Steps

end BufferedRule

/-! ## What the two variants leave alone -/

/-- Submitting and collecting a record leaves no marks and keeps the lane, and the entry is that of
the record. -/
structure BufferedVariant.Framed (v : BufferedVariant α χ) : Prop where
  submit : ∀ record value, (v.submit record value).Within (chainFrame _)
  submit_record : ∀ record value w₀ w, (v.submit record value).Safe (.observing fun _ _ => True)
    (fun entry _ _ => entry.sourceRecord = record) (fun _ _ _ => True) w₀ w
  collect : ∀ entry, (v.collect entry).Within (chainFrame _)

namespace ExecutionCoordinator

variable (c : ExecutionCoordinator α χ)

/-- The programs of the variant with a single stage stay within their footprints. -/
theorem framed_singleVariant (stage : BufferedStageSpec) : (c.singleVariant stage).Framed where
  submit record value := by
    refine within_bind (within_attempt (within_chainInvoke rfl)) fun submitted => ?_
    cases submitted with
    | ok future => exact within_ret _
    | error exc => exact within_ite (within_ret _) (within_raise _)
  submit_record record value w₀ w := by
    change (submitSingleBufferedRecord stage record value).Safe _ _ _ _ _
    unfold submitSingleBufferedRecord invoke
    rw [safe_bind, safe_attempt, safe_bind, safe_perform]
    refine ⟨trivial, fun w₁ _ r _ _ => ⟨trivial, ?_⟩⟩
    cases r with
    | ok future => rfl
    | error exc =>
      change Safe _ _ _ (if exc.isException then pure _ else raise exc) _ _
      split
      · rfl
      · trivial
  collect entry := by
    change (c.collectSingleBufferedRecord stage entry).Within _
    unfold collectSingleBufferedRecord
    cases entry.future with
    | none => exact within_ret _
    | some future =>
      refine within_bind (within_attempt (within_chainInvoke rfl)) fun awaited => ?_
      match awaited with
      | .error exc => exact within_ite (within_ret _) (within_raise _)
      | .ok (.processed result failure) => exact within_ret _
      | .ok (.value none) => exact within_ret _
      | .ok (.value (some value)) =>
        exact within_ite (MiddlewareChain.within_processStages _ _ _) (within_ret _)

/-- So do those of the variant with several stages. -/
theorem framed_multiVariant (first : BufferedStageSpec) : (c.multiVariant first).Framed where
  submit record value := within_bind (within_perform rfl) fun _ => within_ret _
  submit_record record value w₀ w := by
    change (createStagesTask record value).Safe _ _ _ _ _
    unfold createStagesTask
    rw [safe_bind, safe_perform]
    exact ⟨trivial, fun w₁ _ r _ _ => ⟨trivial, rfl⟩⟩
  collect entry := by
    change (c.collectBufferedRecord first entry).Within _
    unfold collectBufferedRecord
    cases entry.future with
    | none => exact within_ret _
    | some future =>
      refine within_bind (within_attempt (within_chainInvoke rfl)) fun awaited => ?_
      match awaited with
      | .error exc => exact within_ite (within_ret _) (within_raise _)
      | .ok (.processed result failure) => exact within_ret _
      | .ok (.value none) => exact within_ret _
      | .ok (.value (some value)) => exact MiddlewareChain.within_processStages _ _ _

end ExecutionCoordinator

omit [DecidableEq α] in
/-- A program that delivers nothing stays within the footprint of the buffered lane. -/
theorem within_lane_of_chain {β : Type} {M : Mark α χ → Prop} {p : BufferedDelivery α χ β}
    (hp : p.Within (chainFrame _)) : p.Within (laneFrame _ M) :=
  DeliveryEngine.within_lane_of_delivery (within_of_chain hp)

namespace BufferedVariant.Framed

variable {c : ExecutionCoordinator α χ} {v : BufferedVariant α χ} {splitIndex : ℕ}
  {assume ensure : RunTrace α χ → Event (Call α χ) Call.Ret (Mark α χ) → Prop}
  {T : RunTrace α χ → Prop} {w₀ w : RunWorld (BufferedState α χ) α χ}

/-- Entering the stage keeps the lane and what is known of the trace, and an entry that comes out of
it is that of the record. -/
theorem safe_enterRecord (hv : v.Framed)
    (hmark : ∀ t m, m.Quiet → assume t (.mark m) → ensure t (.mark m))
    (hcall : ∀ t o r, assume t (.called o r) → ensure t (.called o r))
    (hTmark : ∀ t m, m.Quiet → T t → T (t ++ [.mark m]))
    (hTcall : ∀ t o r, T t → T (t ++ [.called o r])) {record : SourceRecord α χ}
    (hw : T w.trace) :
    (c.enterRecord v splitIndex record).Safe (laneContract assume ensure)
      (fun r _ w' => w'.state.lane = w.state.lane ∧ T w'.trace ∧
        ∀ entry, r = .inr entry → entry.sourceRecord = record)
      (fun _ _ w' => w'.state.lane = w.state.lane ∧ T w'.trace) w₀ w := by
  have hprefix : (c.chain.processRangeOutcome 0 splitIndex record.raw :
      BufferedDelivery α χ _).Within (laneFrame _ Mark.Quiet) :=
    within_lane_of_chain (MiddlewareChain.within_processStages _ _ _)
  unfold ExecutionCoordinator.enterRecord
  rw [safe_bind]
  refine (safe_laneFrame allowsEngine_quiet hmark hcall hTmark hTcall hprefix hw).mono
    (fun outcome w₁ w' hw' => ?_) fun _ _ _ he => he
  obtain ⟨hlane, hT⟩ := hw'
  cases outcome.1 with
  | none => exact ⟨hlane, hT, nofun⟩
  | some value =>
    dsimp only
    rw [safe_bind]
    have hsubmit : (v.submit record value).Safe (laneContract assume ensure)
        (fun _ _ w'' => w''.state.lane = w'.state.lane ∧ T w''.trace)
        (fun _ _ w'' => w''.state.lane = w'.state.lane ∧ T w''.trace) w₁ w' :=
      safe_laneFrame allowsEngine_quiet hmark hcall hTmark hTcall
        (within_lane_of_chain (hv.submit record value)) hT
    have hentry := hsubmit.and (fun _ _ => Background.extends) (fun _ _ _ _ => trivial)
      (fun _ _ _ => trivial) (hv.submit_record record value w₁ w')
    refine hentry.mono (fun entry _ w'' hw'' => ?_) fun _ _ w'' hw'' => ?_
    · obtain ⟨⟨hlane', hT'⟩, hrecord⟩ := hw''
      refine ⟨hlane'.trans hlane, hT', fun entry' h => ?_⟩
      cases h
      exact hrecord
    · exact ⟨hw''.1.1.trans hlane, hw''.1.2⟩

omit [DecidableEq α] in
/-- Collecting a record keeps the lane and what is known of the trace. -/
theorem safe_collect (hv : v.Framed)
    (hmark : ∀ t m, m.Quiet → assume t (.mark m) → ensure t (.mark m))
    (hcall : ∀ t o r, assume t (.called o r) → ensure t (.called o r))
    (hTmark : ∀ t m, m.Quiet → T t → T (t ++ [.mark m]))
    (hTcall : ∀ t o r, T t → T (t ++ [.called o r])) {entry : PendingRecord α χ}
    (hw : T w.trace) :
    (v.collect entry).Safe (laneContract assume ensure)
      (fun _ _ w' => w'.state.lane = w.state.lane ∧ T w'.trace)
      (fun _ _ w' => w'.state.lane = w.state.lane ∧ T w'.trace) w₀ w :=
  safe_laneFrame allowsEngine_quiet hmark hcall hTmark hTcall
    (within_lane_of_chain (hv.collect entry)) hw

end BufferedVariant.Framed

/-! ## Runs of the lane beside the owner -/

namespace ExecutionCoordinator

variable [DecidableEq χ] (c : ExecutionCoordinator α χ)

/-- The lane is safe when the variant it chooses is. -/
theorem safe_runBufferedLane
    {C : Contract (Call α χ) Call.Ret (Mark α χ) (RunState (BufferedState α χ) α χ)}
    {Q : Unit → RunWorld (BufferedState α χ) α χ → RunWorld (BufferedState α χ) α χ → Prop}
    {E : Exc → RunWorld (BufferedState α χ) α χ → RunWorld (BufferedState α χ) α χ → Prop}
    {fuel currentLimit : ℕ} {stages : List BufferedStageSpec} {records : List (SourceRecord α χ)}
    {w₀ w : RunWorld (BufferedState α χ) α χ} (hpending : w.state.lane.pendingRecords = [])
    (hnone : stages = [] → E (.runtimeError "buffered lane selected without buffered stages") w₀ w)
    (hsingle : ∀ first, stages = [first] → ∀ w' : RunWorld (BufferedState α χ) α χ,
      w'.state.lane.pendingRecords = [] → w'.trace = w.trace →
      (c.runBuffered (c.singleVariant first) fuel first.index records).Safe C Q E w₀ w')
    (hmulti : ∀ first second rest, stages = first :: second :: rest →
      ∀ w' : RunWorld (BufferedState α χ) α χ,
      w'.state.lane.pendingRecords = [] → w'.trace = w.trace →
      (c.runBuffered (c.multiVariant first) fuel first.index records).Safe C Q E w₀ w') :
    (c.runBufferedLane fuel stages currentLimit records).Safe C Q E w₀ w := by
  unfold runBufferedLane
  match stages with
  | [] => exact hnone rfl
  | [first] =>
    dsimp only
    rw [safe_bind]
    refine safe_modifyBuffered fun w' hlane htrace => ?_
    exact hsingle first rfl w' (by rw [hlane]; exact hpending) htrace
  | first :: second :: rest =>
    dsimp only
    rw [safe_bind]
    refine safe_modifyBuffered fun w' hlane htrace => ?_
    exact hmulti first second rest rfl w' (by rw [hlane]; exact hpending) htrace

/-- A run of a program on the objects of the buffered lane beside the pending-write owner, after a
schedule. -/
def laneRun (fuel : ℕ) (main : BufferedDelivery α χ Unit) (h : Environment α χ)
    (lastSaved : Option χ) (turns : List Turn) :
    System.Config (Call α χ) Call.Ret (Mark α χ) (RunState (BufferedState α χ) α χ) Exc Unit :=
  let system := c.delivery.withOwner fuel main
  system.exec h (system.start ⟨RunState.initial ⟨[], 0⟩ lastSaved, []⟩) turns

/-- A run of the buffered lane beside the pending-write owner, after a schedule. -/
def bufferedRun (fuel : ℕ) (stages : List BufferedStageSpec) (currentLimit : ℕ)
    (records : List (SourceRecord α χ)) (h : Environment α χ) (lastSaved : Option χ)
    (turns : List Turn) :
    System.Config (Call α χ) Call.Ret (Mark α χ) (RunState (BufferedState α χ) α χ) Exc Unit :=
  c.laneRun fuel (c.runBufferedLane fuel stages currentLimit records) h lastSaved turns

end ExecutionCoordinator

end AgoraEtl
