import AgoraEtl.Lanes.Frame

/-!
# An invariant rule for the pipelined batch lane

The pending batches of the pipelined lane are numbered consecutively from `nextCommit` on, so that
as long as no batch was taken out and then lost to an exception, the next one to commit is there.
`PipelineRule` lists what has to be shown of the two variants' own programs, the submission and the
resolution of one batch; `PipelineRule.safe_runPipelined` carries it through the loops of the lane.
-/

namespace AgoraEtl

open Effect Program

variable {α χ ρ : Type}

/-! ## The dictionary of pending batches -/

namespace PipelineState

/-- The pending batches in the order of their numbers. -/
def batches (p : PipelineState α χ) : List (SourceBatch α χ) :=
  p.pendingBatches.map fun entry => entry.2.2

/-- The pending batches are numbered from `n` on, up to the next sequence number. -/
structure NumberedFrom (n : ℕ) (p : PipelineState α χ) : Prop where
  keys : p.pendingBatches.map Prod.fst = List.range' n p.pendingBatches.length
  next : p.nextSequence = n + p.pendingBatches.length

/-- The batch with the next number to commit was taken out. -/
def Stuck (p : PipelineState α χ) : Prop := ∀ entry ∈ p.pendingBatches, p.nextCommit < entry.1

theorem batches_length (p : PipelineState α χ) : p.batches.length = p.pendingBatches.length :=
  List.length_map _

theorem batches_eq_nil {p : PipelineState α χ} : p.batches = [] ↔ p.pendingBatches = [] :=
  List.map_eq_nil_iff

theorem numberedFrom_empty : NumberedFrom 0 (PipelineState.empty : PipelineState α χ) := ⟨rfl, rfl⟩

/-- The numbers of the pending batches are at least the first one. -/
theorem NumberedFrom.le {n : ℕ} {p : PipelineState α χ} (h : p.NumberedFrom n) :
    ∀ entry ∈ p.pendingBatches, n ≤ entry.1 := by
  intro entry hentry
  have hmem : entry.1 ∈ p.pendingBatches.map Prod.fst := List.mem_map_of_mem hentry
  rw [h.keys] at hmem
  exact (List.mem_range'_1.mp hmem).1

/-- The first pending batch has the first number, and taking it out leaves the others. -/
theorem NumberedFrom.pop {n k : ℕ} {p : PipelineState α χ} {entry : BatchTask × SourceBatch α χ}
    {rest : List (ℕ × BatchTask × SourceBatch α χ)} (h : p.NumberedFrom n)
    (hp : p.pendingBatches = (k, entry) :: rest) :
    k = n ∧ (p.pop n).pendingBatches = rest ∧ (p.pop n).NumberedFrom (n + 1) := by
  have hkeys := h.keys
  rw [hp, List.map_cons, List.length_cons, List.range'_succ] at hkeys
  obtain ⟨hk, hrest⟩ := List.cons_eq_cons.mp hkeys
  have hk : k = n := hk
  have hpop : (p.pop n).pendingBatches = rest := by
    change p.pendingBatches.filter _ = rest
    rw [hp, hk, List.filter_cons_of_neg (by simp), List.filter_eq_self]
    intro e he
    have hmem : e.1 ∈ rest.map Prod.fst := List.mem_map_of_mem he
    rw [hrest] at hmem
    have hlt := (List.mem_range'_1.mp hmem).1
    exact decide_eq_true (by omega)
  have hnext := h.next
  rw [hp, List.length_cons] at hnext
  refine ⟨hk, hpop, by rw [hpop]; exact hrest, ?_⟩
  rw [hpop]
  exact hnext.trans (by omega)

/-- A new batch gets the next number. -/
theorem NumberedFrom.push {n : ℕ} {p : PipelineState α χ} (h : p.NumberedFrom n) (task : BatchTask)
    (batch : SourceBatch α χ) : (p.push task batch).NumberedFrom n := by
  refine ⟨?_, ?_⟩
  · simp only [PipelineState.push, List.map_append, List.map_cons, List.map_nil,
      List.length_append, List.length_singleton, h.keys, h.next, List.range'_append_1.symm,
      List.range'_one]
  · simp only [PipelineState.push, List.length_append, List.length_singleton, h.next]
    omega

/-- A number below all others is not found. -/
theorem lookup_eq_none {p : PipelineState α χ} {n : ℕ}
    (h : ∀ entry ∈ p.pendingBatches, n < entry.1) : p.pendingBatches.lookup n = none := by
  rw [List.lookup_eq_none_iff]
  intro entry hentry
  have := h entry hentry
  simp only [bne_iff_ne, ne_eq]
  omega

end PipelineState

/-! ## Committing batches -/

/-- The calls the pipelined lane makes itself. -/
def Call.isLane : Call α χ → Bool
  | .await .sourceNext => true
  | .await .drainPipelinedBatches => true
  | .await .sleep => true
  | .await .abortInFlightBatches => true
  | .await (.gather _) => true
  | .futureDone _ => true
  | .cancelFuture _ => true
  | _ => false

theorem Call.isSave_eq_false_of_isLane {o : Call α χ} (h : o.isLane = true) : o.isSave = false := by
  cases o with
  | await a => cases a <;> first | rfl | cases h
  | _ => rfl

/-- The awaited operations that cancel pending batches. -/
def Await.isCancel : Await α χ → Bool
  | .abortInFlightBatches => true
  | .gather _ => true
  | _ => false

theorem Await.isLane_of_isCancel {a : Await α χ} (h : a.isCancel = true) :
    (Call.await a).isLane = true := by
  cases a <;> first | rfl | cases h

namespace PipelinedVariant

/-- The helpers have come to the batch with the number `n`; the property `T` of the pending batches
and the trace holds. -/
structure Committing (T : List (SourceBatch α χ) → RunTrace α χ → Prop) (n : ℕ)
    (w : RunWorld (PipelineState α χ) α χ) : Prop where
  numbered : w.state.lane.NumberedFrom n
  commit_le : w.state.lane.nextCommit ≤ n
  holds : T w.state.lane.batches w.trace

/-- No helper is running. -/
def AtRest (T : List (SourceBatch α χ) → RunTrace α χ → Prop)
    (w : RunWorld (PipelineState α χ) α χ) : Prop :=
  Committing T w.state.lane.nextCommit w

/-- A helper lost the batch it had taken out to the exception. -/
def Lost (F : Exc → List (SourceBatch α χ) → RunTrace α χ → Prop) (e : Exc)
    (w : RunWorld (PipelineState α χ) α χ) : Prop :=
  w.state.lane.Stuck ∧ F e w.state.lane.batches w.trace

/-- What resolving a batch does to a property `T` of the pending batches and the trace. -/
def Resolves (v : PipelinedVariant α χ ρ)
    (C : Contract (Call α χ) Call.Ret (Mark α χ) (RunState (PipelineState α χ) α χ))
    (streaming : Bool) (T : List (SourceBatch α χ) → RunTrace α χ → Prop)
    (F : Exc → List (SourceBatch α χ) → RunTrace α χ → Prop) : Prop :=
  ∀ task batch pending w₀ w, T (batch :: pending) w.trace → w.state.lane.batches = pending →
    (v.resolveTaken streaming task batch).Safe C
      (fun _ _ w' => w'.state.lane = w.state.lane ∧ T pending w'.trace)
      (fun e _ w' => w'.state.lane = w.state.lane ∧ F e pending w'.trace) w₀ w

section Committing

variable {v : PipelinedVariant α χ ρ}
  {assume ensure : RunTrace α χ → Event (Call α χ) Call.Ret (Mark α χ) → Prop} {mayHang : Prop}
  {streaming : Bool} {T : List (SourceBatch α χ) → RunTrace α χ → Prop}
  {F : Exc → List (SourceBatch α χ) → RunTrace α χ → Prop}

/-- Updating the objects of the lane leaves the trace alone. -/
theorem safe_modifyPipeline {f : PipelineState α χ → PipelineState α χ}
    {C : Contract (Call α χ) Call.Ret (Mark α χ) (RunState (PipelineState α χ) α χ)}
    {Q : Unit → RunWorld (PipelineState α χ) α χ → RunWorld (PipelineState α χ) α χ → Prop}
    {E : Exc → RunWorld (PipelineState α χ) α χ → RunWorld (PipelineState α χ) α χ → Prop}
    {w₀ w : RunWorld (PipelineState α χ) α χ}
    (h : ∀ w', w'.state.lane = f w.state.lane → w'.trace = w.trace → Q () w₀ w') :
    (modifyPipeline f).Safe C Q E w₀ w :=
  h _ rfl rfl

/-- Taking the next batch out and resolving it. -/
theorem safe_popBatch_resolveTaken
    (hresolve : v.Resolves (.alone assume ensure mayHang) streaming T F) {n k : ℕ}
    {task : BatchTask} {batch : SourceBatch α χ} {rest : List (ℕ × BatchTask × SourceBatch α χ)}
    {w₀ w : RunWorld (PipelineState α χ) α χ} (hw : Committing T n w)
    (hrest : w.state.lane.pendingBatches = (k, task, batch) :: rest) :
    (do popBatch n; v.resolveTaken streaming task batch).Safe (.alone assume ensure mayHang)
      (fun _ _ w' => Committing T (n + 1) w' ∧
        w'.state.lane.pendingBatches.length + 1 = w.state.lane.pendingBatches.length)
      (fun e _ w' => Lost F e w') w₀ w := by
  obtain ⟨-, hpop, hnumbered⟩ := hw.numbered.pop hrest
  have hbatches : w.state.lane.batches = batch :: (w.state.lane.pop n).batches := by
    simp only [PipelineState.batches, hrest, hpop, List.map_cons]
  have hT := hw.holds
  rw [hbatches] at hT
  unfold popBatch
  rw [safe_bind]
  refine safe_modifyPipeline fun w₁ hlane₁ htrace₁ => ?_
  have hcommit : w₁.state.lane.nextCommit ≤ n := by rw [hlane₁]; exact hw.commit_le
  rw [← hlane₁, ← htrace₁] at hT
  rw [← hlane₁] at hpop hnumbered
  refine (hresolve task batch _ w₀ w₁ hT rfl).mono (fun _ _ w' hw' => ?_) fun e _ w' hw' => ?_
  · obtain ⟨hlane, htrace⟩ := hw'
    refine ⟨⟨?_, ?_, ?_⟩, ?_⟩
    · rw [hlane]; exact hnumbered
    · rw [hlane]; exact Nat.le_succ_of_le hcommit
    · rw [hlane]; exact htrace
    · rw [hlane, hrest, List.length_cons]
      exact congrArg (fun l => l.length + 1) hpop
  · obtain ⟨hlane, htrace⟩ := hw'
    refine ⟨?_, ?_⟩
    · rw [hlane]
      exact fun entry hentry => Nat.lt_of_lt_of_le (Nat.lt_succ_of_le hcommit)
        (hnumbered.le entry hentry)
    · rw [hlane]; exact htrace

/-- Reading the batch with the next number. -/
theorem safe_getBatch {n : ℕ} {w₀ w : RunWorld (PipelineState α χ) α χ} (hw : Committing T n w)
    {Q : Option (BatchTask × SourceBatch α χ) → RunWorld (PipelineState α χ) α χ →
      RunWorld (PipelineState α χ) α χ → Prop}
    {E : Exc → RunWorld (PipelineState α χ) α χ → RunWorld (PipelineState α χ) α χ → Prop}
    (hempty : w.state.lane.pendingBatches = [] → Q none w₀ w)
    (hnext : ∀ k task batch rest, w.state.lane.pendingBatches = (k, task, batch) :: rest →
      Q (some (task, batch)) w₀ w) :
    (getBatch n).Safe (.alone assume ensure mayHang) Q E w₀ w := by
  unfold getBatch
  rw [safe_bind, safe_read, pure_eq_ret, safe_ret]
  match hpending : w.state.lane.pendingBatches with
  | [] => exact hempty hpending
  | (k, task, batch) :: rest =>
    obtain ⟨rfl, -, -⟩ := hw.numbered.pop hpending
    rw [List.lookup_cons_self]
    exact hnext k task batch rest hpending

/-- `_drain_ready_pipelined_*_batches` commits batches that are done, in the order of their
numbers. -/
theorem safe_drainReady (w₀ : RunWorld (PipelineState α χ) α χ)
    (hresolve : v.Resolves (.alone assume ensure mayHang) streaming T F)
    (hcall : ∀ pending t o r, o.isLane = true → assume t (.called o r) → T pending t →
      ensure t (.called o r) ∧ T pending (t ++ [.called o r])) {fuel n : ℕ}
    {w : RunWorld (PipelineState α χ) α χ}
    (hfuel : mayHang ∨ w.state.lane.pendingBatches.length < fuel) (hw : Committing T n w) :
    (v.drainReady fuel streaming n).Safe (.alone assume ensure mayHang)
      (fun n' _ w' => Committing T n' w' ∧
        w'.state.lane.pendingBatches.length ≤ w.state.lane.pendingBatches.length)
      (fun e _ w' => Lost F e w') w₀ w := by
  refine safe_iterate_measure
    (I := fun n' _ w' => Committing T n' w' ∧
      w'.state.lane.pendingBatches.length ≤ w.state.lane.pendingBatches.length)
    (fun _ w' => w'.state.lane.pendingBatches.length)
    (fun n' w₀ w' hw' => ?_) fuel hfuel ⟨hw, le_rfl⟩
  obtain ⟨hw', hle⟩ := hw'
  unfold drainReadyRound
  rw [safe_bind]
  refine safe_getBatch hw' (fun _ => ⟨hw', hle⟩) fun k task batch rest hrest => ?_
  rw [safe_bind, safe_perform_alone]
  intro done hassume
  obtain ⟨hens, hT⟩ := hcall _ _ _ _ rfl hassume hw'.holds
  refine ⟨hens, ?_⟩
  have hw'' : Committing T n' (w'.called (Call.futureDone task.future) done) :=
    ⟨hw'.numbered, hw'.commit_le, hT⟩
  split
  · change ((do popBatch n'; v.resolveTaken streaming task batch) >>= fun _ =>
      pure (Sum.inl (n' + 1))).Safe _ _ _ _ _
    rw [safe_bind]
    refine (safe_popBatch_resolveTaken hresolve hw'' hrest).mono (fun _ _ w'' hd => ?_)
      fun e _ w'' hd => hd
    obtain ⟨hd, hlength⟩ := hd
    simp only [World.called_state] at hlength
    exact ⟨⟨hd, by omega⟩, by omega⟩
  · exact ⟨hw'', hle⟩

/-- `_commit_next_pipelined_*_batch` commits the next batch if there is one. -/
theorem safe_commitNext (w₀ : RunWorld (PipelineState α χ) α χ)
    (hresolve : v.Resolves (.alone assume ensure mayHang) streaming T F)
    {n : ℕ} {w : RunWorld (PipelineState α χ) α χ}
    (hpending : w.state.lane.pendingBatches ≠ []) (hw : Committing T n w) :
    (v.commitNext streaming n).Safe (.alone assume ensure mayHang)
      (fun n' _ w' => Committing T n' w' ∧
        w'.state.lane.pendingBatches.length < w.state.lane.pendingBatches.length)
      (fun e _ w' => Lost F e w') w₀ w := by
  unfold commitNext
  rw [safe_bind]
  refine safe_getBatch hw (fun hnil => absurd hnil hpending) fun k task batch rest hrest => ?_
  change ((do popBatch n; v.resolveTaken streaming task batch) >>= fun _ =>
    pure (n + 1)).Safe _ _ _ _ _
  rw [safe_bind]
  refine (safe_popBatch_resolveTaken hresolve hw hrest).mono (fun _ _ w' hd => ?_)
    fun e _ w' hd => hd
  exact ⟨hd.1, by omega⟩

/-- `next_commit = await …` for a helper that commits batches. -/
theorem safe_advanceCommit {helper : ℕ → PipelineDelivery α χ ℕ}
    {w₀ w : RunWorld (PipelineState α χ) α χ} {P : ℕ → Prop}
    (hhelper : (helper w.state.lane.nextCommit).Safe (.alone assume ensure mayHang)
      (fun n' _ w' => Committing T n' w' ∧ P w'.state.lane.pendingBatches.length)
      (fun e _ w' => Lost F e w') w₀ w) :
    (advanceCommit helper).Safe (.alone assume ensure mayHang)
      (fun _ _ w' => AtRest T w' ∧ P w'.state.lane.pendingBatches.length)
      (fun e _ w' => Lost F e w') w₀ w := by
  unfold advanceCommit modifyPipeline
  rw [safe_bind, safe_read, safe_bind]
  refine hhelper.mono (fun n' _ w' hw' => ?_) fun e _ w' hw' => hw'
  rw [safe_modify]
  exact ⟨⟨⟨hw'.1.numbered.keys, hw'.1.numbered.next⟩, le_rfl, hw'.1.holds⟩, hw'.2⟩

/-- A helper that does not find the next batch changes nothing. -/
theorem safe_advanceCommit_stuck {helper : ℕ → PipelineDelivery α χ ℕ}
    {w₀ w : RunWorld (PipelineState α χ) α χ}
    {E : Exc → RunWorld (PipelineState α χ) α χ → RunWorld (PipelineState α χ) α χ → Prop}
    (hhelper : (helper w.state.lane.nextCommit).Safe (.alone assume ensure mayHang)
      (fun n _ w' => n = w.state.lane.nextCommit ∧ w' = w) E w₀ w) :
    (advanceCommit helper).Safe (.alone assume ensure mayHang)
      (fun _ _ w' => w'.state.lane = w.state.lane ∧ w'.trace = w.trace) E w₀ w := by
  unfold advanceCommit
  rw [safe_bind, safe_read, safe_bind]
  refine hhelper.mono (fun n _ w' hw' => ?_) fun _ _ _ he => he
  obtain ⟨rfl, rfl⟩ := hw'
  exact safe_modifyPipeline fun w'' hlane htrace => ⟨hlane, htrace⟩

/-- No round finds the batch with the next number. -/
theorem safe_drainReady_stuck (hhang : mayHang) {E : Exc → RunWorld (PipelineState α χ) α χ →
      RunWorld (PipelineState α χ) α χ → Prop}
    {fuel : ℕ} {w₀ w : RunWorld (PipelineState α χ) α χ} (hstuck : w.state.lane.Stuck) :
    (v.drainReady fuel false w.state.lane.nextCommit).Safe (.alone assume ensure mayHang)
      (fun n _ w' => n = w.state.lane.nextCommit ∧ w' = w) E w₀ w := by
  cases fuel with
  | zero => exact hhang
  | succ fuel =>
    change (Program.bind (v.drainReadyRound false _) _).Safe _ _ _ _ _
    rw [← bind_eq, safe_bind]
    unfold drainReadyRound getBatch
    simp only [safe_bind, safe_read, pure_eq_ret, safe_ret,
      PipelineState.lookup_eq_none hstuck, and_self]

/-- The batch with the next number is not there to be committed. -/
theorem safe_commitNext_stuck {E : Exc → RunWorld (PipelineState α χ) α χ →
      RunWorld (PipelineState α χ) α χ → Prop}
    {w₀ w : RunWorld (PipelineState α χ) α χ} (hstuck : w.state.lane.Stuck) :
    (v.commitNext false w.state.lane.nextCommit).Safe (.alone assume ensure mayHang)
      (fun n _ w' => n = w.state.lane.nextCommit ∧ w' = w) E w₀ w := by
  unfold commitNext getBatch
  simp only [safe_bind, safe_read, pure_eq_ret, safe_ret, PipelineState.lookup_eq_none hstuck,
    and_self]

/-- Draining a lane that has lost its next batch while others are pending makes no progress: it ends
only if one of its own two calls raises. -/
theorem safe_drain_stuck (hhang : mayHang) {P : RunTrace α χ → Prop}
    {Q : Exc → RunTrace α χ → Prop}
    (hcall : ∀ (a : Await α χ), a = .drainPipelinedBatches ∨ a = .sleep → ∀ t r,
      assume t (.called (.await a) r) → P t → ensure t (.called (.await a) r) ∧
        match r with
        | .ok _ => P (t ++ [.called (.await a) r])
        | .error e => Q e (t ++ [.called (.await a) r]))
    {fuel : ℕ} {w₀ w : RunWorld (PipelineState α χ) α χ} (hstuck : w.state.lane.Stuck)
    (hpending : w.state.lane.pendingBatches ≠ []) (hw : P w.trace) :
    (iterate (v.drainRound fuel) fuel ()).Safe (.alone assume ensure mayHang)
      (fun _ _ _ => False) (fun e _ w' => Q e w'.trace) w₀ w := by
  refine safe_iterate (C := .alone assume ensure mayHang) hhang
    (I := fun _ _ w' => w'.state.lane = w.state.lane ∧ P w'.trace)
    (fun _ w₀ w' hw' => ?_) fuel ⟨rfl, hw⟩
  obtain ⟨hlane, hw'⟩ := hw'
  have hempty : ∀ w'' : RunWorld (PipelineState α χ) α χ, w''.state.lane = w.state.lane →
      w''.state.lane.pendingBatches.isEmpty = false := fun w'' h => by
    rw [h]
    exact List.isEmpty_eq_false_iff.mpr hpending
  unfold drainRound
  simp only [safe_bind, safe_read, hempty w' hlane, Bool.false_eq_true, if_false]
  refine safe_invoke.mpr fun r hassume => ?_
  obtain ⟨hens, hr⟩ := hcall _ (.inl rfl) _ r hassume hw'
  refine ⟨hens, ?_⟩
  cases r with
  | error e => exact hr
  | ok u =>
  dsimp only
  rw [safe_bind]
  refine safe_invoke.mpr fun r hassume => ?_
  obtain ⟨hens, hr⟩ := hcall _ (.inr rfl) _ r hassume hr
  refine ⟨hens, ?_⟩
  cases r with
  | error e => exact hr
  | ok u' =>
  have hstuck' : (w'.called (.await .drainPipelinedBatches) (.ok u)).called (.await .sleep) (.ok u')
      |>.state.lane.Stuck := by
    simp only [World.called_state, hlane]
    exact hstuck
  dsimp only
  rw [safe_bind]
  refine (safe_advanceCommit_stuck (v.safe_drainReady_stuck hhang hstuck')).mono (fun _ w₁ w₂ hw₂ => ?_)
    fun _ _ _ he => he
  have hlane₂ : w₂.state.lane = w.state.lane := hw₂.1.trans hlane
  rw [safe_bind, safe_read]
  simp only [hempty w₂ hlane₂, Bool.false_eq_true, if_false, safe_bind]
  have hstuck₂ : w₂.state.lane.Stuck := by rwa [hlane₂]
  refine (safe_advanceCommit_stuck (v.safe_commitNext_stuck hstuck₂)).mono (fun _ _ w₃ hw₃ => ?_)
    fun _ _ _ he => he
  refine ⟨hw₃.1.trans hlane₂, ?_⟩
  rw [hw₃.2, hw₂.2]
  exact hr

end Committing

end PipelinedVariant

/-! ## The rule -/

/-- What has to be shown of the submission and the resolution of one batch, for a stream of batches.
The properties speak about the batches consumed so far, the pending batches and the trace. -/
structure PipelineRule (v : PipelinedVariant α χ ρ)
    (assume ensure : RunTrace α χ → Event (Call α χ) Call.Ret (Mark α χ) → Prop) (mayHang : Prop)
    (batches : List (SourceBatch α χ)) where
  /-- Holds between two batches of the stream. -/
  streaming : List (SourceBatch α χ) → List (SourceBatch α χ) → RunTrace α χ → Prop
  /-- Holds while the pending batches are drained, with an exception on its way or without one. -/
  draining : Bool → List (SourceBatch α χ) → RunTrace α χ → Prop
  /-- Holds once the exception is about to leave the lane. -/
  raised : Exc → RunTrace α χ → Prop
  draining_of_streaming : ∀ {failed consumed pending t}, streaming consumed pending t →
    draining failed pending t
  raised_of_draining : ∀ {e failed pending t}, draining failed pending t → raised e t
  ensure_laneCall : ∀ {t o r}, o.isLane = true → assume t (.called o r) → ensure t (.called o r)
  streaming_laneCall : ∀ {consumed pending t o r}, o.isLane = true → assume t (.called o r) →
    streaming consumed pending t → streaming consumed pending (t ++ [.called o r])
  draining_laneCall : ∀ {failed pending t o r}, o.isLane = true → assume t (.called o r) →
    draining failed pending t → draining failed pending (t ++ [.called o r])
  raised_laneCall : ∀ {e t o r}, o.isLane = true → assume t (.called o r) →
    raised e t → raised e (t ++ [.called o r])
  /-- An exception while the pending batches are cancelled replaces the one on its way. -/
  raised_cancel : ∀ {e e' t} {a : Await α χ}, a.isCancel = true →
    assume t (.called (.await a) (.error e')) → raised e t →
      raised e' (t ++ [.called (.await a) (.error e')])
  submit : ∀ {consumed batch rest pending w₀ w}, batches = consumed ++ batch :: rest →
    streaming consumed pending w.trace → w.state.lane.batches = pending →
      (v.submit batch).Safe (.alone assume ensure mayHang)
        (fun r _ w' => w'.state.lane = w.state.lane ∧
          streaming (consumed ++ [batch]) (pending ++ (r.map fun _ => batch).toList) w'.trace)
        (fun _ _ w' => w'.state.lane = w.state.lane ∧ draining true pending w'.trace) w₀ w
  resolve_streaming : ∀ consumed, v.Resolves (.alone assume ensure mayHang) true
    (streaming consumed)
    fun e pending t => raised e t ∧
      (mustAbortPendingWork e = false → pending ≠ [] → mayHang ∧ ∀ e', raised e' t)
  resolve_draining : ∀ failed, v.Resolves (.alone assume ensure mayHang) false (draining failed)
    fun e _ t => raised e t

namespace PipelineRule

open PipelinedVariant

variable {v : PipelinedVariant α χ ρ}
  {assume ensure : RunTrace α χ → Event (Call α χ) Call.Ret (Mark α χ) → Prop} {mayHang : Prop}
  {batches : List (SourceBatch α χ)} (R : PipelineRule v assume ensure mayHang batches)

/-- The exception is on its way out of the streaming loop. -/
def Left (e : Exc) (w : RunWorld (PipelineState α χ) α χ) : Prop :=
  (AtRest (R.draining true) w ∧ w.state.lane.batches.length ≤ batches.length) ∨
    Lost (fun e pending t => R.raised e t ∧
      (mustAbortPendingWork e = false → pending ≠ [] → mayHang ∧ ∀ e', R.raised e' t)) e w

/-- A resting lane stays at rest while the trace goes on. -/
theorem atRest_of_lane {T : List (SourceBatch α χ) → RunTrace α χ → Prop}
    {w w' : RunWorld (PipelineState α χ) α χ} (hw : AtRest T w)
    (hlane : w'.state.lane = w.state.lane) (hT : T w.state.lane.batches w'.trace) : AtRest T w' := by
  unfold AtRest
  rw [hlane]
  exact ⟨hlane ▸ hw.numbered, hlane ▸ le_rfl, hlane ▸ hT⟩

include R in
/-- An awaited operation of the lane keeps a property of the trace that its calls keep. -/
theorem safe_laneInvoke {T : RunTrace α χ → Prop} {a : Await α χ}
    (ha : (Call.await a).isLane = true)
    (hT : ∀ t r, assume t (.called (.await a) r) → T t → T (t ++ [.called (.await a) r]))
    {w₀ w : RunWorld (PipelineState α χ) α χ} (hw : T w.trace) :
    (invoke a).Safe (.alone assume ensure mayHang)
      (fun _ _ w' => w'.state.lane = w.state.lane ∧ T w'.trace)
      (fun _ _ w' => w'.state.lane = w.state.lane ∧ T w'.trace) w₀ w := by
  refine safe_invoke.mpr fun r hassume => ⟨R.ensure_laneCall ha hassume, ?_⟩
  have hw' := hT _ r hassume hw
  cases r with
  | ok v => exact ⟨rfl, hw'⟩
  | error e => exact ⟨rfl, hw'⟩

/-- The loop that keeps the number of pending batches under the limit. -/
theorem safe_limit {fuel limit : ℕ} (hlimit : 0 < limit) {consumed : List (SourceBatch α χ)}
    {w₀ w : RunWorld (PipelineState α χ) α χ}
    (hfuel : mayHang ∨ w.state.lane.pendingBatches.length < fuel)
    (hw : AtRest (R.streaming consumed) w) :
    (iterate (v.limitRound fuel limit) fuel ()).Safe (.alone assume ensure mayHang)
      (fun _ _ w' => AtRest (R.streaming consumed) w' ∧
        w'.state.lane.pendingBatches.length ≤ w.state.lane.pendingBatches.length)
      (fun e _ w' => R.Left e w') w₀ w := by
  refine safe_iterate_measure
    (I := fun _ _ w' => AtRest (R.streaming consumed) w' ∧
      w'.state.lane.pendingBatches.length ≤ w.state.lane.pendingBatches.length)
    (fun _ w' => w'.state.lane.pendingBatches.length) (fun _ w₀ w' hw' => ?_) fuel hfuel
    ⟨hw, le_rfl⟩
  obtain ⟨hw', hle⟩ := hw'
  have hfuel' : mayHang ∨ w'.state.lane.pendingBatches.length < fuel :=
    hfuel.imp_right fun h => by omega
  unfold limitRound
  rw [safe_bind, safe_read]
  split
  · exact ⟨hw', hle⟩
  rw [safe_bind]
  have hdrain := safe_drainReady w₀ (R.resolve_streaming consumed)
    (fun _ _ _ _ ho ha hT => ⟨R.ensure_laneCall ho ha, R.streaming_laneCall ho ha hT⟩) hfuel' hw'
  refine (safe_advanceCommit (P := fun n => n ≤ w'.state.lane.pendingBatches.length)
    hdrain).mono (fun _ w₁ w'' hw'' => ?_) fun e _ _ he => .inr he
  obtain ⟨hw'', hle'⟩ := hw''
  rw [safe_bind, safe_read]
  split
  · exact ⟨hw'', by omega⟩
  rename_i hfull
  have hpending : w''.state.lane.pendingBatches ≠ [] := by
    intro hnil
    rw [hnil] at hfull
    exact hfull hlimit
  rw [safe_bind]
  have hcommit := safe_commitNext w₁ (R.resolve_streaming consumed) hpending hw''
  refine (safe_advanceCommit (P := fun n => n < w''.state.lane.pendingBatches.length)
    hcommit).mono (fun _ _ w₂ hw₂ => ?_) fun e _ _ he => .inr he
  exact ⟨⟨hw₂.1, by omega⟩, by omega⟩

/-- The body of the streaming loop consumes one batch. -/
theorem safe_streamBatch {fuel limit : ℕ} (hlimit : 0 < limit)
    (hfuel : mayHang ∨ batches.length < fuel) {consumed rest : List (SourceBatch α χ)}
    {batch : SourceBatch α χ} (hbatches : batches = consumed ++ batch :: rest)
    {w₀ w : RunWorld (PipelineState α χ) α χ} (hw : AtRest (R.streaming consumed) w)
    (hle : w.state.lane.pendingBatches.length ≤ consumed.length) :
    (v.streamBatch fuel limit batch).Safe (.alone assume ensure mayHang)
      (fun _ _ w' => AtRest (R.streaming (consumed ++ [batch])) w' ∧
        w'.state.lane.pendingBatches.length ≤ (consumed ++ [batch]).length)
      (fun e _ w' => R.Left e w') w₀ w := by
  have hlength : consumed.length + 1 ≤ batches.length := by
    rw [hbatches, List.length_append, List.length_cons]
    omega
  unfold streamBatch
  rw [safe_bind]
  refine safe_incConsumed fun due w hlane htrace => ?_
  replace hw := atRest_of_lane hw hlane (htrace ▸ hw.holds)
  rw [← hlane] at hle
  clear hlane htrace
  rw [safe_bind]
  refine (R.submit hbatches hw.holds rfl).mono (fun r w₁ w' hw' => ?_) fun e _ w' hw' => Or.inl ?_
  · obtain ⟨hlane, hT⟩ := hw'
    -- a batch that bypasses the stage leaves the dictionary alone, the others are appended
    suffices hrest : ∀ w'' : RunWorld (PipelineState α χ) α χ,
        AtRest (R.streaming (consumed ++ [batch])) w'' →
        w''.state.lane.pendingBatches.length ≤ consumed.length + 1 →
        (iterate (v.limitRound fuel limit) fuel ()).Safe (.alone assume ensure mayHang)
          (fun _ _ w' => AtRest (R.streaming (consumed ++ [batch])) w' ∧
            w'.state.lane.pendingBatches.length ≤ (consumed ++ [batch]).length)
          (fun e _ w' => R.Left e w') w₁ w'' by
      cases r with
      | none =>
        refine hrest w' ⟨?_, le_rfl, ?_⟩ ?_
        · rw [hlane]; exact hw.numbered
        · rw [hlane]; simpa using hT
        · rw [hlane]; exact Nat.le_succ_of_le hle
      | some task =>
        dsimp only
        rw [safe_bind]
        refine safe_modifyPipeline fun w'' hlane' htrace' => ?_
        rw [hlane] at hlane'
        refine hrest w'' ⟨?_, ?_, ?_⟩ ?_
        · rw [hlane']; exact hw.numbered.push task batch
        · rw [hlane']
        · rw [hlane', htrace']
          simpa [PipelineState.batches, PipelineState.push] using hT
        · rw [hlane']
          simpa [PipelineState.push] using hle
    intro w'' hw'' hle''
    refine (R.safe_limit hlimit (hfuel.imp_right fun h => by omega) hw'').mono
      (fun _ _ w₂ hw₂ => ⟨hw₂.1, ?_⟩) fun _ _ _ he => he
    rw [List.length_append, List.length_singleton]
    exact hw₂.2.trans hle''
  · obtain ⟨hlane, hT⟩ := hw'
    refine ⟨⟨?_, le_rfl, ?_⟩, ?_⟩
    · rw [hlane]; exact hw.numbered
    · rw [hlane]; exact hT
    · rw [hlane]
      exact (PipelineState.batches_length _).trans_le (hle.trans (by omega))

/-- Cancelling the pending batches keeps an exception on its way, or replaces it by another. -/
theorem safe_cancelPendingBatchTasks {e : Exc} {w₀ w : RunWorld (PipelineState α χ) α χ}
    (hw : R.raised e w.trace) :
    (cancelPendingBatchTasks : PipelineDelivery α χ Unit).Safe (.alone assume ensure mayHang)
      (fun _ _ w' => R.raised e w'.trace) (fun e' _ w' => R.raised e' w'.trace) w₀ w := by
  have hinvoke : ∀ (a : Await α χ) (w₀ w : RunWorld (PipelineState α χ) α χ),
      a.isCancel = true → R.raised e w.trace →
      (invoke a : PipelineDelivery α χ a.Value).Safe (.alone assume ensure mayHang)
        (fun _ _ w' => R.raised e w'.trace) (fun e' _ w' => R.raised e' w'.trace) w₀ w := by
    intro a w₀ w ha hw
    rw [safe_invoke]
    intro r hassume
    refine ⟨R.ensure_laneCall (Await.isLane_of_isCancel ha) hassume, ?_⟩
    cases r with
    | ok v => exact R.raised_laneCall (Await.isLane_of_isCancel ha) hassume hw
    | error e' => exact R.raised_cancel ha hassume hw
  have hfutures : ∀ (futures : List Future) (w₀ w : RunWorld (PipelineState α χ) α χ),
      R.raised e w.trace → (cancelFutures futures : PipelineDelivery α χ Unit).Safe
        (.alone assume ensure mayHang) (fun _ _ w' => R.raised e w'.trace)
        (fun e' _ w' => R.raised e' w'.trace) w₀ w := by
    intro futures
    induction futures with
    | nil => exact fun w₀ w hw => hw
    | cons future futures ih =>
      intro w₀ w hw
      unfold cancelFutures
      rw [safe_bind, safe_perform_alone]
      intro done hassume
      refine ⟨R.ensure_laneCall rfl hassume, ?_⟩
      have hw' := R.raised_laneCall rfl hassume hw
      split
      · exact ih _ _ hw'
      · rw [safe_bind]
        refine safe_perform_alone.mpr fun u hassume' => ?_
        exact ⟨R.ensure_laneCall rfl hassume', ih _ _ (R.raised_laneCall rfl hassume' hw')⟩
  unfold cancelPendingBatchTasks
  rw [safe_bind, safe_read, safe_bind]
  refine safe_modifyPipeline fun w₁ _ htrace => ?_
  rw [← htrace] at hw
  rw [safe_bind]
  refine (hinvoke .abortInFlightBatches _ _ rfl hw).mono (fun _ _ w' hw' => ?_) fun _ _ _ he => he
  rw [safe_bind]
  refine (hfutures _ _ _ hw').mono (fun _ _ w'' hw'' => ?_) fun _ _ _ he => he
  split
  · exact hw''
  · exact hinvoke (.gather _) _ _ rfl hw''

/-- The loop that drains the pending batches of a resting lane. -/
theorem safe_drain {fuel : ℕ} {failed : Bool} {w₀ w : RunWorld (PipelineState α χ) α χ}
    (hfuel : mayHang ∨ w.state.lane.pendingBatches.length < fuel) (hw : AtRest (R.draining failed) w) :
    (iterate (v.drainRound fuel) fuel ()).Safe (.alone assume ensure mayHang)
      (fun _ _ w' => R.draining failed [] w'.trace) (fun e _ w' => R.raised e w'.trace) w₀ w := by
  refine safe_iterate_measure
    (I := fun _ _ w' => AtRest (R.draining failed) w' ∧
      w'.state.lane.pendingBatches.length ≤ w.state.lane.pendingBatches.length)
    (fun _ w' => w'.state.lane.pendingBatches.length) (fun _ w₀ w' hw' => ?_) fuel hfuel
    ⟨hw, le_rfl⟩
  obtain ⟨hw', hle⟩ := hw'
  have hdone : ∀ w'' : RunWorld (PipelineState α χ) α χ, AtRest (R.draining failed) w'' →
      w''.state.lane.pendingBatches.isEmpty = true → R.draining failed [] w''.trace := by
    intro w'' hw'' hempty
    rw [← PipelineState.batches_eq_nil.mpr (List.isEmpty_iff.mp hempty)]
    exact hw''.holds
  unfold drainRound
  rw [safe_bind, safe_read]
  split
  · rename_i hempty
    exact hdone w' hw' hempty
  rw [safe_bind]
  refine (R.safe_laneInvoke (a := .drainPipelinedBatches) rfl
    (fun _ _ ha => R.draining_laneCall rfl ha) hw'.holds).mono (fun _ w₁ w₂ hw₂ => ?_)
    fun _ _ _ he => R.raised_of_draining he.2
  replace hw₂ := And.intro hw₂.1 (atRest_of_lane hw' hw₂.1 hw₂.2)
  rw [safe_bind]
  refine (R.safe_laneInvoke (a := .sleep) rfl
    (fun _ _ ha => R.draining_laneCall rfl ha) hw₂.2.holds).mono (fun _ w₁ w₃ hw₃ => ?_)
    fun _ _ _ he => R.raised_of_draining he.2
  have hrest := atRest_of_lane hw₂.2 hw₃.1 hw₃.2
  have hlane : w₃.state.lane = w'.state.lane := hw₃.1.trans hw₂.1
  rw [safe_bind]
  have hdrain := safe_drainReady w₁ (R.resolve_draining failed)
    (fun _ _ _ _ ho ha hT => ⟨R.ensure_laneCall ho ha, R.draining_laneCall ho ha hT⟩)
    (hfuel.imp_right fun h => by rw [hlane]; exact hle.trans_lt h) hrest
  refine (safe_advanceCommit (F := fun e _ t => R.raised e t)
    (P := fun n => n ≤ w₃.state.lane.pendingBatches.length)
    hdrain).mono (fun _ w₁ w'' hw'' => ?_) fun e _ _ he => he.2
  obtain ⟨hw'', hle'⟩ := hw''
  rw [hlane] at hle'
  rw [safe_bind, safe_read]
  split
  · rename_i hempty
    exact hdone w'' hw'' hempty
  rename_i hpending
  rw [safe_bind]
  have hcommit := safe_commitNext w₁ (R.resolve_draining failed)
    (fun hnil => hpending (List.isEmpty_iff.mpr hnil)) hw''
  refine (safe_advanceCommit (P := fun n => n < w''.state.lane.pendingBatches.length)
    hcommit).mono (fun _ _ w₂ hw₂ => ?_) fun e _ _ he => he.2
  exact ⟨⟨hw₂.1, by omega⟩, by omega⟩

/-- Draining the pending batches of a resting lane. -/
theorem safe_drainPending {fuel : ℕ} {failed : Bool} {w₀ w : RunWorld (PipelineState α χ) α χ}
    (hfuel : mayHang ∨ w.state.lane.pendingBatches.length < fuel) (hw : AtRest (R.draining failed) w) :
    (v.drainPending fuel).Safe (.alone assume ensure mayHang)
      (fun _ _ w' => R.draining failed [] w'.trace) (fun e _ w' => R.raised e w'.trace) w₀ w := by
  unfold drainPending
  rw [safe_bind, safe_attempt]
  refine (R.safe_drain hfuel hw).mono (fun _ _ w' hw' => hw') fun e w₁ w' hw' => ?_
  dsimp only
  rw [safe_bind]
  exact (R.safe_cancelPendingBatchTasks hw').mono (fun _ _ _ h => h) fun _ _ _ h => h

/-- After an exception of the streaming loop the lane raises, unless it never ends. -/
theorem safe_drainPending_left {fuel : ℕ} (hfuel : mayHang ∨ batches.length < fuel) {e : Exc}
    (habort : mustAbortPendingWork e = false) {w₀ w : RunWorld (PipelineState α χ) α χ}
    (hw : R.Left e w) :
    (v.drainPending fuel).Safe (.alone assume ensure mayHang)
      (fun _ _ w' => R.raised e w'.trace) (fun e' _ w' => R.raised e' w'.trace) w₀ w := by
  rcases hw with ⟨hrest, hle⟩ | ⟨hstuck, hraised, hpending⟩
  · rw [PipelineState.batches_length] at hle
    exact (R.safe_drainPending (hfuel.imp_right fun h => by omega) hrest).mono
      (fun _ _ _ h => R.raised_of_draining h) fun _ _ _ h => h
  · unfold drainPending
    rw [safe_bind, safe_attempt]
    by_cases hnil : w.state.lane.batches = []
    · have hempty : w.state.lane.pendingBatches.isEmpty = true :=
        List.isEmpty_iff.mpr (PipelineState.batches_eq_nil.mp hnil)
      cases fuel with
      | zero => exact hfuel.resolve_right (Nat.not_lt_zero _)
      | succ fuel =>
        change (Program.bind (v.drainRound _ ()) _).Safe _ _ _ _ _
        rw [← bind_eq, safe_bind]
        unfold drainRound
        simp only [safe_bind, safe_read, hempty, if_true, pure_eq_ret, safe_ret]
        exact hraised
    · obtain ⟨hhang, hall⟩ := hpending habort hnil
      have hcall : ∀ a : Await α χ, a = .drainPipelinedBatches ∨ a = .sleep →
          (Call.await a).isLane = true := by
        rintro a (rfl | rfl) <;> rfl
      refine (safe_drain_stuck hhang (P := fun t => ∀ e', R.raised e' t) (Q := R.raised)
        (fun a ha t r hassume ht => ⟨R.ensure_laneCall (hcall a ha) hassume, ?_⟩) hstuck
        (fun h => hnil (PipelineState.batches_eq_nil.mpr h)) hall).mono
        (fun _ _ _ h => h.elim) fun e' w₁ w' hw' => ?_
      · have ht' := fun e' => R.raised_laneCall (hcall a ha) hassume (ht e')
        cases r with
        | ok u => exact ht'
        | error e' => exact ht' e'
      dsimp only
      rw [safe_bind]
      exact (R.safe_cancelPendingBatchTasks hw').mono (fun _ _ _ h => h) fun _ _ _ h => h

/-- The rule for the whole lane. -/
theorem safe_runPipelined {fuel limit : ℕ} (hlimit : 0 < limit)
    (hfuel : mayHang ∨ batches.length < fuel) {w₀ w : RunWorld (PipelineState α χ) α χ}
    (hlane : w.state.lane = .empty) (hstart : R.streaming [] [] w.trace) :
    (v.runPipelined fuel limit batches).Safe (.alone assume ensure mayHang)
      (fun _ _ w' => R.draining false [] w'.trace) (fun e _ w' => R.raised e w'.trace) w₀ w := by
  have hrest : AtRest (R.streaming []) w := by
    unfold AtRest
    rw [hlane]
    refine ⟨?_, ?_, ?_⟩
    · rw [hlane]; exact PipelineState.numberedFrom_empty
    · rw [hlane]
    · rw [hlane]; exact hstart
  have hstream : (forEach (v.streamBatch fuel limit) batches).Safe (.alone assume ensure mayHang)
      (fun _ _ w' => AtRest (R.streaming batches) w' ∧
        w'.state.lane.pendingBatches.length ≤ batches.length) (fun e _ w' => R.Left e w') w₀ w := by
    refine safe_forEach
      (I := fun consumed _ w' => AtRest (R.streaming consumed) w' ∧
        w'.state.lane.pendingBatches.length ≤ consumed.length ∧ consumed.length ≤ batches.length)
      (fun consumed w₀ w' hw' => ?_) (fun consumed batch rest w₀ w' hbatches hw' => ?_)
      ⟨hrest, by rw [hlane]; exact le_rfl, Nat.zero_le _⟩ |>.mono
      (fun _ _ w' hw' => ⟨hw'.1, hw'.2.1⟩) fun _ _ _ he => he
    · refine (R.safe_laneInvoke (a := .sourceNext) rfl
        (fun _ _ ha => R.streaming_laneCall rfl ha) hw'.1.holds).mono (fun _ _ w'' hw'' => ?_)
        fun e _ w'' hw'' => Or.inl ?_
      · have hlane' := hw''.1
        exact ⟨atRest_of_lane hw'.1 hw''.1 hw''.2, hlane' ▸ hw'.2.1, hw'.2.2⟩
      · have hdrain : R.draining true _ _ := R.draining_of_streaming hw''.2
        rw [PipelineState.batches_length, hw''.1]
        refine ⟨atRest_of_lane ⟨hw'.1.numbered, hw'.1.commit_le, R.draining_of_streaming hw'.1.holds⟩
          hw''.1 hdrain, hw'.2.1.trans hw'.2.2⟩
    · refine (R.safe_streamBatch hlimit hfuel hbatches hw'.1 hw'.2.1).mono
        (fun _ _ w'' hw'' => ⟨hw''.1, hw''.2, ?_⟩) fun _ _ _ he => he
      rw [hbatches, List.length_append, List.length_append, List.length_cons]
      simp
  unfold runPipelined
  rw [safe_bind, safe_attempt]
  refine hstream.mono (fun _ w₁ w' hw' => ?_) fun e w₁ w' hw' => ?_
  · exact R.safe_drainPending (hfuel.imp_right fun h => by omega)
      ⟨hw'.1.numbered, hw'.1.commit_le, R.draining_of_streaming hw'.1.holds⟩
  · dsimp only
    split
    · have hraised : R.raised e w'.trace := by
        rcases hw' with ⟨hrest, -⟩ | ⟨-, hraised, -⟩
        · exact R.raised_of_draining hrest.holds
        · exact hraised
      rw [safe_bind]
      exact (R.safe_cancelPendingBatchTasks hraised).mono (fun _ _ _ h => h) fun _ _ _ h => h
    · rename_i habort
      rw [safe_bind]
      exact (R.safe_drainPending_left hfuel (Bool.eq_false_iff.mpr habort) hw').mono
        (fun _ _ _ h => h) fun _ _ _ h => h

end PipelineRule

end AgoraEtl
