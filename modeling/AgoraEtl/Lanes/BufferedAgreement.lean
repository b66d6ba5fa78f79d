import AgoraEtl.Lanes.BufferedRule
import AgoraEtl.Middleware.RecordWalk

/-!
# The buffered lane and the plain chain

The buffered lane cuts the chain at its buffered stages and runs the pieces by different functions.  The
value or the failure it hands to the delivery engine is that of the plain chain, with one difference: a
middleware behind a buffered stage reports the record its piece was entered with, which is what the
buffered stage made of the source record, and not the source record.
-/

namespace AgoraEtl

open Effect Program

variable {ℓ α χ : Type}

/-! ## The plan and the chain -/

/-- The stages of a plan stand in the chain, in order and under their names. -/
structure IsPlan (chain : MiddlewareChain) (stages : List BufferedStageSpec) : Prop where
  increasing : (stages.map BufferedStageSpec.index).Pairwise (· < ·)
  middleware : ∀ stage ∈ stages, ∃ mw, chain[stage.index]? = some mw ∧ mw.name = stage.name

/-- The plan has a stage at the index. -/
def isStage (stages : List BufferedStageSpec) (index : ℕ) : Bool :=
  decide (index ∈ stages.map BufferedStageSpec.index)

/-- The first stage of a plan is a stage at its own index only. -/
theorem isStage_cons_of_ne {stage : BufferedStageSpec} {stages : List BufferedStageSpec} {index : ℕ}
    (hne : index ≠ stage.index) : isStage (stage :: stages) index = isStage stages index := by
  unfold isStage
  congr 1
  rw [List.map_cons, List.mem_cons, eq_iff_iff, or_iff_right hne]

namespace IsPlan

variable {chain : MiddlewareChain} {stage : BufferedStageSpec} {stages : List BufferedStageSpec}

/-- Without its first stage a plan is a plan. -/
theorem tail (h : IsPlan chain (stage :: stages)) : IsPlan chain stages where
  increasing := (List.pairwise_cons.mp h.increasing).2
  middleware := fun other hother => h.middleware other (List.mem_cons_of_mem _ hother)

/-- The first stage of a plan comes before the others. -/
theorem lt_of_mem (h : IsPlan chain (stage :: stages)) :
    ∀ other ∈ stages, stage.index < other.index := by
  intro other hother
  have hpairwise := h.increasing
  rw [List.map_cons, List.pairwise_cons] at hpairwise
  exact hpairwise.1 other.index (List.mem_map_of_mem hother)

/-- No stage stands before the first one. -/
theorem isStage_of_lt (h : IsPlan chain (stage :: stages)) {index : ℕ} (hlt : index < stage.index) :
    isStage (stage :: stages) index = false := by
  simp only [isStage, List.map_cons, List.mem_cons, List.mem_map, decide_eq_false_iff_not]
  rintro (heq | ⟨other, hother, heq⟩)
  · omega
  · have hlater := h.lt_of_mem other hother
    omega

end IsPlan

namespace MiddlewareChain

/-- A slice up to the end of the chain is what is left of it. -/
theorem slice_length (chain : MiddlewareChain) (start : ℕ) :
    chain.slice start chain.length = chain.zipIdx.drop start := by
  unfold slice
  rw [List.take_of_length_le (by simp)]

/-- The indices of a slice lie between its bounds. -/
theorem index_of_mem_slice {chain : MiddlewareChain} {start stop : ℕ} {s : Middleware × ℕ}
    (h : s ∈ chain.slice start stop) : start ≤ s.2 ∧ s.2 < stop := by
  obtain ⟨k, hk⟩ := List.mem_iff_getElem?.mp h
  unfold slice at hk
  rw [List.getElem?_drop, List.getElem?_take] at hk
  split at hk
  · rename_i hlt
    rw [List.getElem?_zipIdx] at hk
    obtain ⟨mw, -, rfl⟩ := Option.map_eq_some_iff.mp hk
    constructor
    · dsimp only
      omega
    · dsimp only
      omega
  · cases hk

/-- The rest of a chain is cut at one of its middlewares. -/
theorem slice_split {chain : MiddlewareChain} {start index : ℕ} {mw : Middleware}
    (hstart : start ≤ index) (hmw : chain[index]? = some mw) :
    chain.slice start chain.length =
      chain.slice start index ++ (mw, index) :: chain.slice (index + 1) chain.length := by
  have hlt : index < chain.length := (List.getElem?_eq_some_iff.mp hmw).1
  have hhead : chain.zipIdx.drop index = (mw, index) :: chain.zipIdx.drop (index + 1) := by
    rw [List.drop_eq_getElem_cons (by simpa using hlt)]
    have hget : chain[index] = mw := (List.getElem?_eq_some_iff.mp hmw).2
    simp [hget]
  rw [slice_length, slice_length, ← hhead]
  have hcut : chain.zipIdx = chain.zipIdx.take index ++ chain.zipIdx.drop index :=
    (List.take_append_drop index _).symm
  unfold slice
  conv_lhs => rw [hcut]
  rw [List.drop_append_of_le_length]
  rw [List.length_take, List.length_zipIdx]
  omega

/-- A slice that ends before it starts is empty. -/
theorem slice_eq_nil (chain : MiddlewareChain) {start stop : ℕ} (h : stop ≤ start) :
    chain.slice start stop = [] := by
  unfold slice
  rw [List.drop_eq_nil_iff, List.length_take]
  omega

/-- A slice begins with the middleware at its start. -/
theorem slice_cons {chain : MiddlewareChain} {index : ℕ} {mw : Middleware}
    (hmw : chain[index]? = some mw) :
    chain.slice index chain.length = (mw, index) :: chain.slice (index + 1) chain.length := by
  rw [slice_split le_rfl hmw, slice_eq_nil chain le_rfl, List.nil_append]

end MiddlewareChain

namespace UserFunctions

variable (f : UserFunctions α) {cut : ℕ → Bool} {raw : α}

/-! ## Outcomes of pieces -/

/-- A record that does not come out of the first piece has the outcome of that piece. -/
theorem Reports.of_none {entered current : α} {stages stages' : List (Middleware × ℕ)}
    {outcome : MiddlewareChain.RecordOutcome α} (hcut : ∀ s ∈ stages, cut s.2 = false)
    (h : f.Reports cut raw (f.walk cut entered current stages) outcome) (hnone : outcome.1 = none) :
    f.Reports cut raw (f.walk cut entered current (stages ++ stages')) outcome := by
  rw [walk_append f hcut]
  cases hwalk : f.walk cut entered current stages with
  | error fault =>
    rw [hwalk] at h
    exact h
  | ok value =>
    rw [hwalk] at h
    obtain rfl : outcome = (value, none) := h
    obtain rfl : value = none := hnone
    rfl

/-- A record that comes out of a piece came out of the walk. -/
theorem Reports.walk_eq {walked : Except (Fault α) (Option α)}
    {outcome : MiddlewareChain.RecordOutcome α} {value : α} (h : f.Reports cut raw walked outcome)
    (hsome : outcome.1 = some value) : walked = .ok (some value) := by
  cases walked with
  | ok value' =>
    obtain rfl : outcome = (value', none) := h
    rw [← hsome]
  | error fault =>
    obtain ⟨-, h⟩ := h
    split at h
    · rw [h] at hsome
      cases hsome
    · rw [h.2] at hsome
      cases hsome

/-- An exception that leaves the first piece leaves the walk. -/
theorem Escapes.of_piece {entered current : α} {stages stages' : List (Middleware × ℕ)} {e : Exc}
    (hcut : ∀ s ∈ stages, cut s.2 = false)
    (h : f.Escapes cut (f.walk cut entered current stages) e) :
    f.Escapes cut (f.walk cut entered current (stages ++ stages')) e := by
  cases hwalk : f.walk cut entered current stages with
  | error fault =>
    rw [walk_append f hcut, hwalk]
    rw [hwalk] at h
    exact h
  | ok value =>
    rw [hwalk] at h
    exact Escapes.of_interrupted f h

/-- Behind a cut it does not matter with which record the walk was entered. -/
theorem reports_entered {index : ℕ} (hindex : cut index = true) (entered entered' current : α)
    (mw : Middleware) (stages : List (Middleware × ℕ)) (outcome : MiddlewareChain.RecordOutcome α) :
    f.Reports cut raw (f.walk cut entered current ((mw, index) :: stages)) outcome ↔
      f.Reports cut raw (f.walk cut entered' current ((mw, index) :: stages)) outcome := by
  rw [walk_cons, walk_cons, hindex]
  cases f.value mw index current with
  | error exc => simp only [Reports, hindex, if_true]
  | ok value => cases value <;> exact Iff.rfl

/-- A buffered stage that fails reports the record of the source. -/
theorem reports_failed {index : ℕ} (hindex : cut index = true) {mw : Middleware} {current : α}
    {exc : Exc} (hexc : f.value mw index current = .error exc ∨ exc.isException = false)
    (hexception : exc.isException = true) (entered : α) (behind : List (Middleware × ℕ)) :
    f.Reports cut raw (f.walk cut entered current ((mw, index) :: behind))
      (none, some ⟨"buffered_middleware", raw, mw.name, exc⟩) := by
  have hvalue : f.value mw index current = .error exc := by
    refine hexc.resolve_right fun hfalse => ?_
    rw [hexception] at hfalse
    cases hfalse
  rw [walk_cons, hvalue]
  refine ⟨hexception, ?_⟩
  rw [if_pos hindex]

/-- Where the walk is cut, what escapes does not depend on what entered the segment before. -/
theorem escapes_entered {index : ℕ} (hindex : cut index = true) (entered entered' current : α)
    (mw : Middleware) (stages : List (Middleware × ℕ)) (e : Exc) :
    f.Escapes cut (f.walk cut entered current ((mw, index) :: stages)) e ↔
      f.Escapes cut (f.walk cut entered' current ((mw, index) :: stages)) e := by
  rw [walk_cons, walk_cons, hindex]
  cases f.value mw index current with
  | error exc => simp [Escapes, hindex]
  | ok value => cases value <;> exact Iff.rfl

/-! ## Buffered stages -/

/-- The calls of a record's way through the chain are answered by the functions, and the future of a
submitted record completes with what `process` would give. -/
structure StageAnswers (chain : MiddlewareChain) (t : RunTrace α χ)
    (e : Event (Call α χ) Call.Ret (Mark α χ)) : Prop where
  user : f.Answers e
  submit : ∀ index record exc mw, e = .called (.await (.submit index record)) (.error exc) →
    chain[index]? = some mw → Gives (.error exc) (f.value mw index record)
  future : ∀ future r index record mw, e = .called (.await (.awaitFuture future)) r →
    .called (.await (.submit index record)) (.ok future) ∈ t → chain[index]? = some mw →
      Gives r ((f.value mw index record).map .value)

variable {chain : MiddlewareChain}
  {assume : RunTrace α χ → Event (Call α χ) Call.Ret (Mark α χ) → Prop} {w₀ w : RunWorld ℓ α χ}

/-- Submitting a record to a stage. -/
theorem safe_submit (hassume : ∀ t e, assume t e → f.StageAnswers chain t e) {mw : Middleware}
    {index : ℕ} (hmw : chain[index]? = some mw) (record : α) :
    (invoke (.submit index record) : Delivery ℓ α χ Future).Safe (.observing assume)
      (fun future _ w' => .called (.await (.submit index record)) (.ok future) ∈ w'.trace)
      (fun e _ _ => f.value mw index record = .error e ∨ e.isException = false) w₀ w := by
  unfold invoke
  rw [safe_bind]
  refine safe_perform.mpr ⟨trivial, fun w₁ _ r _ hr => ⟨trivial, ?_⟩⟩
  cases r with
  | ok future =>
    rw [safe_ofExcept, World.called_trace]
    exact List.mem_append_right _ List.mem_cons_self
  | error exc =>
    rcases (hassume _ _ hr).submit index record exc mw rfl hmw with hgives | ⟨e, he, hfalse⟩
    · exact .inl hgives.symm
    · cases he
      exact .inr hfalse

/-- Awaiting the future of a submitted record. -/
theorem safe_awaitFuture (hassume : ∀ t e, assume t e → f.StageAnswers chain t e) {mw : Middleware}
    {index : ℕ} (hmw : chain[index]? = some mw) {record : α} {future : Future}
    (hsubmitted : .called (.await (.submit index record)) (.ok future) ∈ w.trace) :
    (invoke (.awaitFuture future) : Delivery ℓ α χ (BufferedResult α)).Safe (.observing assume)
      (fun result _ _ => ∃ value, result = .value value ∧ f.value mw index record = .ok value)
      (fun e _ _ => f.value mw index record = .error e ∨ e.isException = false) w₀ w := by
  unfold invoke
  rw [safe_bind]
  refine safe_perform.mpr ⟨trivial, fun w₁ hextends r _ hr => ⟨trivial, ?_⟩⟩
  have hearlier : .called (.await (.submit index record)) (.ok future) ∈ w₁.trace :=
    hextends.subset hsubmitted
  rcases (hassume _ _ hr).future future r index record mw rfl hearlier hmw with rfl | ⟨e, rfl, he⟩
  · rw [safe_ofExcept]
    cases f.value mw index record with
    | ok value => exact ⟨value, rfl, rfl⟩
    | error e => exact .inl rfl
  · exact .inr he

end UserFunctions

namespace ExecutionCoordinator

variable [DecidableEq α] (c : ExecutionCoordinator α χ) (f : UserFunctions α) {cut : ℕ → Bool}

/-- What becomes of a record that has reached a buffered stage with a value. -/
theorem processThroughStages_cons (record : SourceRecord α χ) (start : ℕ)
    (stage : BufferedStageSpec) (stages : List BufferedStageSpec) (current : α) :
    (c.processThroughStages record start (stage :: stages) current : Delivery ℓ α χ _) =
      ((if start < stage.index then c.chain.processRangeOutcome start stage.index current
        else pure (some current, none)) >>= fun reached => match reached.1 with
      | none => pure reached
      | some value => do
        let processed ← attempt (do
          let future ← invoke (.submit stage.index value)
          invoke (.awaitFuture future))
        match processed with
        | .error exc =>
          if exc.isException then
            pure (none, some (bufferedStageFailure record stage.name exc))
          else raise exc
        | .ok (.processed result failure) => pure (result, failure)
        | .ok (.value none) => pure (none, none)
        | .ok (.value (some next)) =>
          c.processThroughStages record (stage.index + 1) stages next) := by
  rw [processThroughStages]
  split
  · rfl
  · rfl

omit [DecidableEq α] in
/-- A record that has reached a buffered stage goes on behind it with the value of the stage. -/
theorem follows_stage {assume : RunTrace α χ → Event (Call α χ) Call.Ret (Mark α χ) → Prop}
    (hassume : ∀ t e, assume t e → f.StageAnswers c.chain t e) (record : SourceRecord α χ)
    {stage : BufferedStageSpec} {mw : Middleware} (hmw : c.chain[stage.index]? = some mw)
    (hname : mw.name = stage.name) (hindex : cut stage.index = true)
    {behind : List (Middleware × ℕ)} {rest : α → Delivery ℓ α χ (MiddlewareChain.RecordOutcome α)}
    (hrest : ∀ next, f.Follows assume cut record.raw (f.walk cut next next behind) (rest next))
    (current value : α) :
    f.Follows assume cut record.raw (f.walk cut current value ((mw, stage.index) :: behind)) (do
      let processed ← attempt (do
        let future ← invoke (.submit stage.index value)
        invoke (.awaitFuture future))
      match processed with
      | .error exc =>
        if exc.isException then
          pure (none, some (bufferedStageFailure record stage.name exc))
        else raise exc
      | .ok (.processed result failure) => pure (result, failure)
      | .ok (.value none) => pure (none, none)
      | .ok (.value (some next)) => rest next) := by
  intro w₀ w
  rw [safe_bind, safe_attempt, safe_bind]
  have hfailed : ∀ exc, f.value mw stage.index value = .error exc ∨ exc.isException = false →
      f.Follows assume cut record.raw (f.walk cut current value ((mw, stage.index) :: behind))
        (if exc.isException then pure (none, some (bufferedStageFailure record stage.name exc))
          else raise exc : Delivery ℓ α χ _) := by
    intro exc hexc w₀ w
    split
    · rename_i hexception
      have hreports : f.Reports cut record.raw
          (f.walk cut current value ((mw, stage.index) :: behind))
          (none, some ⟨"buffered_middleware", record.raw, mw.name, exc⟩) :=
        f.reports_failed hindex hexc hexception current behind
      rw [hname] at hreports
      exact hreports
    · rename_i hexception
      exact UserFunctions.Escapes.of_interrupted f (Bool.eq_false_iff.mpr hexception)
  refine (f.safe_submit hassume hmw value).mono (fun future w₁ w' hsubmitted => ?_)
    fun e _ _ he => hfailed e he _ _
  refine (f.safe_awaitFuture hassume hmw hsubmitted).mono (fun result _ _ hresult => ?_)
    fun e _ _ he => hfailed e he _ _
  obtain ⟨next, rfl, hnext⟩ := hresult
  rw [UserFunctions.walk_cons, hindex, hnext]
  cases next with
  | none => exact rfl
  | some next => exact hrest next _ _

/-- Taking a record through the buffered stages from some place in the chain on ends as the walk through
the rest of the chain says, cut at the stages. -/
theorem follows_processThroughStages
    {assume : RunTrace α χ → Event (Call α χ) Call.Ret (Mark α χ) → Prop}
    (hassume : ∀ t e, assume t e → f.StageAnswers c.chain t e) (record : SourceRecord α χ)
    {stages : List BufferedStageSpec} {start : ℕ} (hplan : IsPlan c.chain stages)
    (hstart : ∀ stage ∈ stages, start ≤ stage.index)
    (hcut : ∀ index, start ≤ index → cut index = isStage stages index) (current : α) :
    f.Follows assume cut record.raw
      (f.walk cut current current (c.chain.slice start c.chain.length))
      (c.processThroughStages record start stages current : Delivery ℓ α χ _) := by
  induction stages generalizing start current with
  | nil =>
    refine f.follows_processStages (fun t e h => (hassume t e h).user) record.raw (fun s hs => ?_)
      current
    rw [hcut s.2 (MiddlewareChain.index_of_mem_slice hs).1]
    rfl
  | cons stage stages ih =>
    obtain ⟨mw, hmw, hname⟩ := hplan.middleware stage List.mem_cons_self
    have hle : start ≤ stage.index := hstart stage List.mem_cons_self
    have hindex : cut stage.index = true := by
      rw [hcut stage.index hle]
      simp [isStage]
    have hpiece : ∀ s ∈ c.chain.slice start stage.index, cut s.2 = false := by
      intro s hs
      obtain ⟨hs₁, hs₂⟩ := MiddlewareChain.index_of_mem_slice hs
      rw [hcut s.2 hs₁]
      exact hplan.isStage_of_lt hs₂
    have hcut' : ∀ index, stage.index + 1 ≤ index → cut index = isStage stages index := by
      intro index hlt
      rw [hcut index (by omega)]
      exact isStage_cons_of_ne (by omega)
    rw [MiddlewareChain.slice_split hle hmw, processThroughStages_cons]
    intro w₀ w
    rw [safe_bind]
    -- the piece before the stage
    have hreached : f.Follows assume cut record.raw
        (f.walk cut current current (c.chain.slice start stage.index))
        (if start < stage.index then c.chain.processRangeOutcome start stage.index current
          else pure (some current, none) : Delivery ℓ α χ _) := by
      split
      · exact f.follows_processStages (fun t e h => (hassume t e h).user) record.raw hpiece current
      · rw [MiddlewareChain.slice_eq_nil c.chain (by omega)]
        exact fun _ _ => rfl
    refine (hreached w₀ w).mono (fun reached w₁ w' hreports => ?_)
      fun e _ _ he => he.of_piece f hpiece
    cases hvalue : reached.1 with
    | none => exact hreports.of_none f hpiece hvalue
    | some value =>
      rw [UserFunctions.walk_append f hpiece, hreports.walk_eq f hvalue]
      exact c.follows_stage f hassume record hmw hname hindex
        (fun next => ih hplan.tail hplan.lt_of_mem hcut' next) current value w₁ w'

end ExecutionCoordinator

/-! ## The two implementations -/

namespace UserFunctions

variable [DecidableEq α] (f : UserFunctions α) (c : ExecutionCoordinator α χ)

/-- The task of a record that was submitted with the value ends as a run of the stages does, unless it
is cancelled. -/
def TaskGives (first : BufferedStageSpec) (rest : List BufferedStageSpec) (raw value : α)
    (answer : Except Exc (BufferedResult α)) : Prop :=
  (∃ e, answer = .error e ∧ e.isException = false) ∨
    ∃ (record : SourceRecord α χ) (h : Environment α χ) (w w' : RunWorld Unit α χ)
      (ended : Outcome Exc (MiddlewareChain.RecordOutcome α)) (t : RunTrace α χ),
      record.raw = raw ∧
        (c.processRecordThroughBufferedStages record first rest value).run h w = (ended, w') ∧
        w'.trace = w.trace ++ t ∧ Along (f.StageAnswers c.chain) w.trace t ∧
        match ended with
        | .returned outcome => answer = .ok (.processed outcome.1 outcome.2)
        | .raised e => answer = .error e
        | .hung => False

/-- The calls of the lane are answered by the functions, and the task of a record runs the stages of the
plan. -/
structure LaneAnswers (first : BufferedStageSpec) (rest : List BufferedStageSpec)
    (t : RunTrace α χ) (e : Event (Call α χ) Call.Ret (Mark α χ)) : Prop
    extends f.StageAnswers c.chain t e where
  task : ∀ future r raw value, e = .called (.await (.awaitFuture future)) r →
    .called (.createStagesTask raw value) future ∈ t → f.TaskGives c first rest raw value r

/-- So are all calls of a run. -/
def LaneAnswered (first : BufferedStageSpec) (rest : List BufferedStageSpec) (t : RunTrace α χ) :
    Prop :=
  ∀ t₁ e t₂, t = t₁ ++ e :: t₂ → f.LaneAnswers c first rest t₁ e

/-- A run whose answers are all the lane's is answered by it. -/
theorem laneAnswered_of_along {f : UserFunctions α} {c : ExecutionCoordinator α χ}
    {first : BufferedStageSpec} {rest : List BufferedStageSpec}
    {t : RunTrace α χ} (h : Along (f.LaneAnswers c first rest) [] t) :
    f.LaneAnswered c first rest t := by
  intro t₁ e t₂ ht
  exact along_iff.mp h t₁ e t₂ ht

/-- A call of another kind than those of the stages. -/
theorem laneAnswers_of_other {f : UserFunctions α} {c : ExecutionCoordinator α χ}
    {first : BufferedStageSpec} {rest : List BufferedStageSpec}
    {t : RunTrace α χ} {e : Event (Call α χ) Call.Ret (Mark α χ)} (hanswers : f.Answers e)
    (hsubmit : ∀ index record r, e ≠ .called (.await (.submit index record)) r)
    (hfuture : ∀ future r, e ≠ .called (.await (.awaitFuture future)) r) :
    f.LaneAnswers c first rest t e where
  user := hanswers
  submit := fun _ _ _ _ he => absurd he (hsubmit _ _ _)
  future := fun _ _ _ _ _ he => absurd he (hfuture _ _)
  task := fun _ _ _ _ he => absurd he (hfuture _ _)

/-- The outcome is that of the walk, or an exception has left the walk. -/
def Hands (cut : ℕ → Bool) (raw : α) (walked : Except (Fault α) (Option α))
    (outcome : MiddlewareChain.RecordOutcome α) : Prop :=
  f.Reports cut raw walked outcome ∨ ∃ e, e.isException = true ∧ f.Escapes cut walked e

/-- What a variant of the lane makes of a record that has come as far as the first buffered stage. -/
structure Implements (v : BufferedVariant α χ) (first : BufferedStageSpec) (cut : ℕ → Bool)
    (assume : RunTrace α χ → Event (Call α χ) Call.Ret (Mark α χ) → Prop) : Type where
  framed : v.Framed
  /-- The record of the entry was submitted with the value. -/
  entered : PendingRecord α χ → α → RunTrace α χ → Prop
  entered_append : ∀ {entry value t e}, entered entry value t → entered entry value (t ++ [e])
  submit : ∀ record value w₀ w, (v.submit record value).Safe (.observing assume)
    (fun entry _ w' => entered entry value w'.trace) (fun _ _ _ => True) w₀ w
  collect : ∀ {entry value w₀ w}, entered entry value w.trace →
    (v.collect entry).Safe (.observing assume)
      (fun outcome _ _ => f.Hands cut entry.sourceRecord.raw
        (f.walk cut value value (c.chain.slice first.index c.chain.length)) outcome)
      (fun _ _ _ => True) w₀ w

end UserFunctions

namespace ExecutionCoordinator

variable [DecidableEq α] (c : ExecutionCoordinator α χ) (f : UserFunctions α)
  {first : BufferedStageSpec} {rest : List BufferedStageSpec}

/-- The implementation for one stage. -/
def singleImplements (hplan : IsPlan c.chain [first]) :
    f.Implements c (c.singleVariant first) first (isStage [first]) (f.LaneAnswers c first []) where
  framed := c.framed_singleVariant first
  entered entry value t := match entry.future with
    | some future => .called (.await (.submit first.index value)) (.ok future) ∈ t
    | none => f.Hands (isStage [first]) entry.sourceRecord.raw
      (f.walk (isStage [first]) value value (c.chain.slice first.index c.chain.length))
      (none, entry.immediateFailure)
  entered_append := by
    intro entry value t e h
    cases hfuture : entry.future with
    | none =>
      rw [hfuture] at h
      exact h
    | some future =>
      rw [hfuture] at h
      exact List.mem_append_left _ h
  submit := by
    intro record value w₀ w
    obtain ⟨mw, hmw, hname⟩ := hplan.middleware first List.mem_cons_self
    change (submitSingleBufferedRecord first record value).Safe _ _ _ _ _
    unfold submitSingleBufferedRecord
    rw [safe_bind, safe_attempt]
    refine (f.safe_submit (fun t e h => h.toStageAnswers) hmw value).mono
      (fun future _ _ hsubmitted => hsubmitted) fun exc _ _ hexc => ?_
    dsimp only
    split
    · rename_i hexception
      rw [MiddlewareChain.slice_cons hmw, ← hname]
      exact .inl (f.reports_failed (by simp [isStage]) hexc hexception value _)
    · trivial
  collect := by
    intro entry value w₀ w h
    obtain ⟨mw, hmw, hname⟩ := hplan.middleware first List.mem_cons_self
    have hindex : isStage [first] first.index = true := by simp [isStage]
    change (c.collectSingleBufferedRecord first entry).Safe _ _ _ _ _
    unfold collectSingleBufferedRecord
    cases hfuture : entry.future with
    | none =>
      rw [hfuture] at h
      exact h
    | some future =>
      rw [hfuture] at h
      rw [MiddlewareChain.slice_cons hmw]
      dsimp only
      rw [safe_bind, safe_attempt]
      refine (f.safe_awaitFuture (fun t e h => h.toStageAnswers) hmw h).mono
        (fun result w₁ w' hresult => ?_) fun exc _ _ hexc => ?_
      · obtain ⟨next, rfl, hnext⟩ := hresult
        rw [UserFunctions.walk_cons, hnext, hindex]
        cases next with
        | none => exact .inl rfl
        | some next =>
          dsimp only
          have hbehind : ∀ s ∈ c.chain.slice (first.index + 1) c.chain.length,
              isStage [first] s.2 = false := by
            intro s hs
            have hlt := (MiddlewareChain.index_of_mem_slice hs).1
            rw [isStage_cons_of_ne (by omega)]
            rfl
          have hassume : ∀ (t : RunTrace α χ) e, f.LaneAnswers c first [] t e → f.Answers e :=
            fun t e h => h.user
          rw [if_pos rfl]
          split
          · exact (f.follows_processStages hassume entry.sourceRecord.raw hbehind next w₁ w').mono
              (fun _ _ _ h => Or.inl h) fun _ _ _ _ => trivial
          · rw [MiddlewareChain.slice_eq_nil c.chain (by omega)]
            exact .inl rfl
      · dsimp only
        split
        · rename_i hexception
          rw [← hname]
          exact .inl (f.reports_failed hindex hexc hexception value _)
        · trivial

variable {f} in
/-- The task of a record hands over what the walk from the first stage on says. -/
theorem hands_of_taskGives {c : ExecutionCoordinator α χ} (hplan : IsPlan c.chain (first :: rest))
    {raw value : α} {answer : Except Exc (BufferedResult α)}
    (h : f.TaskGives c first rest raw value answer) :
    match answer with
    | .ok result => ∃ outcome : MiddlewareChain.RecordOutcome α,
        result = .processed outcome.1 outcome.2 ∧ f.Hands (isStage (first :: rest)) raw
          (f.walk (isStage (first :: rest)) value value
            (c.chain.slice first.index c.chain.length)) outcome
    | .error e => e.isException = true → ∀ outcome, f.Hands (isStage (first :: rest)) raw
        (f.walk (isStage (first :: rest)) value value
          (c.chain.slice first.index c.chain.length)) outcome := by
  rcases h with ⟨e, rfl, he⟩ | ⟨record, h, w, w', ended, t, rfl, hrun, htrace, hanswers, hended⟩
  · intro hexception
    rw [he] at hexception
    cases hexception
  · have hstart : ∀ stage ∈ first :: rest, first.index ≤ stage.index := by
      intro stage hstage
      rcases List.mem_cons.mp hstage with rfl | hstage
      · exact le_rfl
      · exact (hplan.lt_of_mem stage hstage).le
    have hfollows : f.Follows (f.StageAnswers c.chain) (isStage (first :: rest)) record.raw
        (f.walk (isStage (first :: rest)) value value (c.chain.slice first.index c.chain.length))
        (c.processRecordThroughBufferedStages record first rest value : Delivery Unit α χ _) :=
      c.follows_processThroughStages f (fun _ _ h => h) record hplan hstart (fun _ _ => rfl) value
    obtain ⟨t', ht', hpost⟩ := (hfollows w w).run_sound (fun _ => List.prefix_rfl)
      (fun _ _ _ => trivial) h
    rw [hrun] at ht' hpost
    obtain rfl : t = t' := List.append_cancel_left (htrace.symm.trans ht')
    have hend := (hpost hanswers).2
    cases ended with
    | returned outcome =>
      obtain rfl : answer = _ := hended
      obtain ⟨-, hreports⟩ := hend
      exact ⟨outcome, rfl, .inl hreports⟩
    | raised e =>
      obtain rfl : answer = _ := hended
      obtain ⟨-, hescapes⟩ := hend
      exact fun hexception _ => .inr ⟨e, hexception, hescapes⟩
    | hung => exact hended.elim

/-- The implementation for several stages, for a plan with any number of them. -/
def multiImplements (hplan : IsPlan c.chain (first :: rest)) :
    f.Implements c (c.multiVariant first) first (isStage (first :: rest))
      (f.LaneAnswers c first rest) where
  framed := c.framed_multiVariant first
  entered entry value t := ∃ future, entry.future = some future ∧
    .called (.createStagesTask entry.sourceRecord.raw value) future ∈ t
  entered_append := by
    rintro entry value t e ⟨future, hfuture, hmem⟩
    exact ⟨future, hfuture, List.mem_append_left _ hmem⟩
  submit := by
    intro record value w₀ w
    change (createStagesTask record value).Safe _ _ _ _ _
    unfold createStagesTask
    rw [safe_bind]
    refine safe_perform.mpr ⟨trivial, fun w₁ _ future _ _ => ⟨trivial, future, rfl, ?_⟩⟩
    exact List.mem_append_right _ List.mem_cons_self
  collect := by
    rintro entry value w₀ w ⟨future, hfuture, hmem⟩
    change (c.collectBufferedRecord first entry).Safe _ _ _ _ _
    unfold collectBufferedRecord invoke
    rw [hfuture]
    dsimp only
    rw [safe_bind, safe_attempt, safe_bind]
    refine safe_perform.mpr ⟨trivial, fun w₁ hextends r _ hr => ⟨trivial, ?_⟩⟩
    have hearlier : .called (.createStagesTask entry.sourceRecord.raw value) future ∈ w₁.trace :=
      hextends.subset hmem
    have hhands := hands_of_taskGives hplan (hr.task future r _ _ rfl hearlier)
    cases r with
    | ok result =>
      obtain ⟨outcome, rfl, hhands⟩ := hhands
      exact hhands
    | error e =>
      change Safe _ _ _ (if e.isException then pure _ else raise e) _ _
      split
      · rename_i hexception
        exact hhands hexception _
      · trivial

end ExecutionCoordinator

/-! ## What is handed over -/

namespace UserFunctions

variable (f : UserFunctions α) {first : BufferedStageSpec} {rest : List BufferedStageSpec}

/-- A middleware that fails on the record of the source has its `on_error` return for that record, and
if it stands behind a buffered stage, then the last such stage has returned the record itself. -/
def ReportsRaw (chain : MiddlewareChain) (stages : List BufferedStageSpec) (raw : α) : Prop :=
  match f.walk (isStage stages) raw raw chain.zipIdx with
  | .ok _ => True
  | .error fault => f.onError fault.index raw fault.exception = .ok () ∧
    (isStage stages fault.index = false → fault.entered = raw)

/-- The outcome of a record is that of the walk through the chain, if the record is one that reports
itself. -/
def HandsWalk (chain : MiddlewareChain) (stages : List BufferedStageSpec) (raw : α)
    (outcome : MiddlewareChain.RecordOutcome α) : Prop :=
  f.ReportsRaw chain stages raw →
    f.Reports (isStage stages) raw (f.walk (isStage stages) raw raw chain.zipIdx) outcome

/-- The chain is cut at the first stage of a plan. -/
theorem zipIdx_split {chain : MiddlewareChain} (hplan : IsPlan chain (first :: rest)) :
    chain.zipIdx = chain.slice 0 first.index ++ chain.slice first.index chain.length := by
  obtain ⟨mw, hmw, -⟩ := hplan.middleware first List.mem_cons_self
  have hsplit := MiddlewareChain.slice_split (Nat.zero_le first.index) hmw
  rw [MiddlewareChain.slice_length, List.drop_zero] at hsplit
  rw [hsplit, MiddlewareChain.slice_cons hmw]

/-- The middlewares before the first stage are none. -/
theorem isStage_of_mem_slice {chain : MiddlewareChain} (hplan : IsPlan chain (first :: rest)) :
    ∀ s ∈ chain.slice 0 first.index, isStage (first :: rest) s.2 = false :=
  fun _ hs => hplan.isStage_of_lt (MiddlewareChain.index_of_mem_slice hs).2

/-- A record that does not reach the first stage is handed over with the outcome of the walk. -/
theorem handsWalk_of_none {chain : MiddlewareChain} (hplan : IsPlan chain (first :: rest)) {raw : α}
    {outcome : MiddlewareChain.RecordOutcome α} (hnone : outcome.1 = none)
    (h : f.Reports (isStage (first :: rest)) raw
      (f.walk (isStage (first :: rest)) raw raw (chain.slice 0 first.index)) outcome) :
    f.HandsWalk chain (first :: rest) raw outcome := by
  intro _
  rw [zipIdx_split hplan]
  exact h.of_none f (isStage_of_mem_slice hplan) hnone

/-- So is a record that reaches the first stage. -/
theorem handsWalk_of_hands {chain : MiddlewareChain} (hplan : IsPlan chain (first :: rest))
    {raw value : α} {outcome : MiddlewareChain.RecordOutcome α}
    (hreached : f.walk (isStage (first :: rest)) raw raw (chain.slice 0 first.index) =
      .ok (some value))
    (h : f.Hands (isStage (first :: rest)) raw (f.walk (isStage (first :: rest)) value value
      (chain.slice first.index chain.length)) outcome) :
    f.HandsWalk chain (first :: rest) raw outcome := by
  obtain ⟨mw, hmw, -⟩ := hplan.middleware first List.mem_cons_self
  have hindex : isStage (first :: rest) first.index = true := by simp [isStage]
  intro hraw
  unfold ReportsRaw at hraw
  rw [zipIdx_split hplan, walk_append f (isStage_of_mem_slice hplan), hreached,
    MiddlewareChain.slice_cons hmw] at hraw ⊢
  rw [MiddlewareChain.slice_cons hmw] at h
  dsimp only at hraw ⊢
  rcases h with hreports | ⟨e, hexception, hescapes⟩
  · exact (f.reports_entered hindex value raw value mw _ outcome).mp hreports
  · -- an `on_error` that raises is that of a record that does not report itself
    have hescapes' := (f.escapes_entered hindex value raw value mw _ e).mp hescapes
    have hnot : e.isException ≠ false := by rw [hexception]; exact Bool.noConfusion
    cases hwalk : f.walk (isStage (first :: rest)) raw value
        ((mw, first.index) :: chain.slice (first.index + 1) chain.length) with
    | ok value' =>
      rw [hwalk] at hescapes'
      exact absurd hescapes' hnot
    | error fault =>
      rw [hwalk] at hescapes' hraw
      rcases hescapes' with hfalse | ⟨hordinary, hraised⟩
      · exact absurd hfalse hnot
      · obtain ⟨hreturned, hentered⟩ := hraw
        rw [hentered hordinary, hreturned] at hraised
        cases hraised

variable [DecidableEq α] {c : ExecutionCoordinator α χ} {v : BufferedVariant α χ} {cut : ℕ → Bool}
  {assume : RunTrace α χ → Event (Call α χ) Call.Ret (Mark α χ) → Prop}
  {w₀ w : RunWorld (BufferedState α χ) α χ}

/-- Entering the stage: the record is rejected with the outcome of the first piece, or it is submitted
with the value that comes out of it. -/
theorem Implements.safe_enterRecord (I : f.Implements c v first cut assume)
    (hassume : ∀ t e, assume t e → f.Answers e)
    (hcut : ∀ s ∈ c.chain.slice 0 first.index, cut s.2 = false) (record : SourceRecord α χ) :
    (c.enterRecord v first.index record).Safe (.observing assume)
      (fun r _ w' =>
        match r with
        | .inl outcome => outcome.1 = none ∧ f.Reports cut record.raw
            (f.walk cut record.raw record.raw (c.chain.slice 0 first.index)) outcome
        | .inr entry => ∃ value, f.walk cut record.raw record.raw (c.chain.slice 0 first.index) =
            .ok (some value) ∧ I.entered entry value w'.trace)
      (fun _ _ _ => True) w₀ w := by
  unfold ExecutionCoordinator.enterRecord
  rw [safe_bind]
  refine (f.follows_processStages hassume record.raw hcut record.raw w₀ w).mono
    (fun outcome w₁ w' hreports => ?_) fun _ _ _ _ => trivial
  cases hvalue : outcome.1 with
  | none => exact ⟨hvalue, hreports⟩
  | some value =>
    dsimp only
    rw [safe_bind]
    refine (I.submit record value w₁ w').mono (fun entry _ _ hentered => ?_) fun _ _ _ h => h
    exact ⟨value, hreports.walk_eq f hvalue, hentered⟩

end UserFunctions

section Rule

variable [DecidableEq α] {c : ExecutionCoordinator α χ} {v : BufferedVariant α χ}
  {f : UserFunctions α} {first : BufferedStageSpec} {rest : List BufferedStageSpec}
  {assume : RunTrace α χ → Event (Call α χ) Call.Ret (Mark α χ) → Prop}

/-- Records are handed over with the outcome of the walk. -/
def HandsWalks (f : UserFunctions α) (chain : MiddlewareChain) (stages : List BufferedStageSpec)
    (_ : RunTrace α χ) (e : Event (Call α χ) Call.Ret (Mark α χ)) : Prop :=
  ∀ record result failure, e = .mark (.dispatched record result failure) →
    f.HandsWalk chain stages record.raw (result, failure)

omit [DecidableEq α] in
/-- Quiet marks hand nothing on. -/
theorem handsWalks_quiet {chain : MiddlewareChain} {stages : List BufferedStageSpec}
    {t : RunTrace α χ} {m : Mark α χ} (hm : m.Quiet) : HandsWalks f chain stages t (.mark m) := by
  intro record result failure he
  cases he
  cases hm

omit [DecidableEq α] in
/-- Nor do calls. -/
theorem handsWalks_called {chain : MiddlewareChain} {stages : List BufferedStageSpec}
    {t : RunTrace α χ} (o : Call α χ) (r : o.Ret) : HandsWalks f chain stages t (.called o r) :=
  fun _ _ _ he => by cases he

/-- Each pending record was submitted with the value that came out of the first piece. -/
def PendingReached (I : f.Implements c v first (isStage (first :: rest)) assume)
    (pending : List (PendingRecord α χ)) (t : RunTrace α χ) : Prop :=
  ∀ entry ∈ pending, ∃ value,
    f.walk (isStage (first :: rest)) entry.sourceRecord.raw entry.sourceRecord.raw
      (c.chain.slice 0 first.index) = .ok (some value) ∧ I.entered entry value t

omit [DecidableEq α] in
/-- What pending records have reached they have reached later on, too. -/
theorem PendingReached.append {I : f.Implements c v first (isStage (first :: rest)) assume}
    {pending : List (PendingRecord α χ)} {t : RunTrace α χ}
    (h : PendingReached I pending t) (e : Event (Call α χ) Call.Ret (Mark α χ)) :
    PendingReached I pending (t ++ [e]) := by
  intro entry hentry
  obtain ⟨value, hwalk, hentered⟩ := h entry hentry
  exact ⟨value, hwalk, I.entered_append hentered⟩

omit [DecidableEq α] in
/-- So have those after the first one. -/
theorem PendingReached.tail {I : f.Implements c v first (isStage (first :: rest)) assume}
    {entry : PendingRecord α χ} {pending : List (PendingRecord α χ)} {t : RunTrace α χ}
    (h : PendingReached I (entry :: pending) t) : PendingReached I pending t :=
  fun other hother => h other (List.mem_cons_of_mem _ hother)

/-- The lane hands over what the walk says. -/
def agreementRule (hplan : IsPlan c.chain (first :: rest))
    (hassume : ∀ t e, assume t e → f.Answers e)
    (I : f.Implements c v first (isStage (first :: rest)) assume)
    (records : List (SourceRecord α χ)) :
    BufferedRule c v first.index records assume (HandsWalks f c.chain (first :: rest)) where
  inv := fun _ pending t => PendingReached I pending t
  handing := fun _ pending record outcome t => PendingReached I pending t ∧
    f.HandsWalk c.chain (first :: rest) record.raw outcome
  raised := fun _ _ _ => True
  ensure_mark := fun hm _ => handsWalks_quiet hm
  ensure_call := fun _ => handsWalks_called _ _
  inv_mark := fun _ h => h.append _
  inv_call := fun h => h.append _
  raised_of_inv := fun _ => trivial
  interrupted := fun _ _ _ _ => trivial
  enter := by
    intro consumed record rest' pending w₀ w _ hw
    have hframed : (c.enterRecord v first.index record).Safe
        (laneContract assume (HandsWalks f c.chain (first :: rest)))
        (fun r _ w' => w'.state.lane = w.state.lane ∧ PendingReached I pending w'.trace ∧
          ∀ entry, r = .inr entry → entry.sourceRecord = record)
        (fun _ _ w' => w'.state.lane = w.state.lane ∧ PendingReached I pending w'.trace) w₀ w :=
      I.framed.safe_enterRecord (fun _ _ hm _ => handsWalks_quiet hm)
        (fun _ _ _ _ => handsWalks_called _ _) (fun _ _ _ h => h.append _)
        (fun _ _ _ h => h.append _) hw
    have henter := safe_observed hframed
      (I.safe_enterRecord f hassume (UserFunctions.isStage_of_mem_slice hplan) record)
    refine henter.mono (fun r _ w' hw' => ?_) fun _ _ w' hw' => hw'.1
    obtain ⟨⟨hlane, hreached, hentry⟩, hr⟩ := hw'
    refine ⟨hlane, ?_⟩
    cases r with
    | inl outcome =>
      obtain ⟨hnone, hreports⟩ := hr
      intro _
      refine ⟨?_, hreached.append _, f.handsWalk_of_none hplan hnone hreports⟩
      intro record' result failure he
      cases he
    | inr entry =>
      obtain ⟨value, hwalk, hentered⟩ := hr
      intro other hother
      rcases List.mem_append.mp hother with hother | hother
      · exact hreached other hother
      · obtain rfl := List.mem_singleton.mp hother
        rw [hentry other rfl]
        exact ⟨value, hwalk, hentered⟩
  collect := by
    intro consumed entry pending w₀ w hw
    obtain ⟨value, hwalk, hentered⟩ := hw entry List.mem_cons_self
    have hframed : (v.collect entry).Safe
        (laneContract assume (HandsWalks f c.chain (first :: rest)))
        (fun _ _ w' => w'.state.lane = w.state.lane ∧ PendingReached I pending w'.trace)
        (fun _ _ w' => w'.state.lane = w.state.lane ∧ PendingReached I pending w'.trace) w₀ w :=
      I.framed.safe_collect (fun _ _ hm _ => handsWalks_quiet hm)
        (fun _ _ _ _ => handsWalks_called _ _) (fun _ _ _ h => h.append _)
        (fun _ _ _ h => h.append _) hw.tail
    have hcollect := safe_observed hframed (I.collect hentered)
    refine hcollect.mono (fun outcome _ w' hw' => ?_) fun _ _ w' hw' => hw'.1
    exact ⟨hw'.1.1, hw'.1.2, f.handsWalk_of_hands hplan hwalk hw'.2⟩
  dispatch := by
    intro consumed pending record outcome t h _
    constructor
    · intro record' result failure he
      cases he
      exact h.2
    · exact h.1.append _
  commitFailed := by
    intro consumed e streaming queued b t h _
    refine ⟨?_, trivial, fun _ _ => .inl (h.append _)⟩
    intro record result failure he
    cases he

end Rule

/-! ## Agreement with the plain chain -/

/-- The outcome that was handed over for a record is that of the plain chain. -/
structure SameOutcome (raw : α) (handed plain : MiddlewareChain.RecordOutcome α) : Prop where
  value : handed.1 = plain.1
  failure : handed.2.map (fun failure => (failure.middleware, failure.exception)) =
    plain.2.map fun failure => (failure.middleware, failure.exception)
  raw : ∀ failure, handed.2 = some failure → failure.record = raw

/-- A record that reports itself is handed over with the outcome of the plain chain. -/
theorem UserFunctions.HandsWalk.agrees [DecidableEq α] {f : UserFunctions α}
    {chain : MiddlewareChain} {stages : List BufferedStageSpec} {raw : α}
    {outcome : MiddlewareChain.RecordOutcome α}
    (hhands : f.HandsWalk chain stages raw outcome) (hraw : f.ReportsRaw chain stages raw)
    {h : Environment α χ} (hf : f.Plays h) (w : RunWorld ℓ α χ) :
    ∃ plain w', (chain.processOutcome raw).run h w = (.returned plain, w') ∧
      SameOutcome raw outcome plain := by
  have hreports := hhands hraw
  unfold UserFunctions.ReportsRaw at hraw
  obtain ⟨w', hrun⟩ := UserFunctions.processStages_run hf (isStage stages) raw raw raw
    (chain.slice 0 chain.length) w
  rw [MiddlewareChain.slice_length, List.drop_zero] at hrun
  have hsame : (chain.processOutcome raw : Delivery ℓ α χ _) =
      MiddlewareChain.processStages raw raw chain.zipIdx := by
    unfold MiddlewareChain.processOutcome MiddlewareChain.processRangeOutcome
    rw [MiddlewareChain.slice_length, List.drop_zero]
  rw [hsame, hrun]
  cases hwalk : f.walk (isStage stages) raw raw chain.zipIdx with
  | ok value =>
    rw [hwalk] at hreports
    obtain rfl : outcome = (value, none) := hreports
    refine ⟨(value, none), w', rfl, ?_⟩
    constructor
    · rfl
    · rfl
    · exact nofun
  | error fault =>
    rw [hwalk] at hreports hraw
    obtain ⟨hexception, houtcome⟩ := hreports
    obtain ⟨hreturned, hentered⟩ := hraw
    refine ⟨(none, some ⟨"middleware", raw, fault.middleware.name, fault.exception⟩), w', ?_, ?_⟩
    · simp only [UserFunctions.plainOutcome, hexception, if_true, hreturned]
    · split at houtcome
      · subst houtcome
        constructor
        · rfl
        · rfl
        · rintro failure ⟨⟩
          rfl
      · rename_i hordinary
        obtain ⟨-, rfl⟩ := houtcome
        constructor
        · rfl
        · rfl
        · rintro failure ⟨⟩
          exact hentered (Bool.eq_false_iff.mpr hordinary)

namespace ExecutionCoordinator

variable [DecidableEq α] [DecidableEq χ] (c : ExecutionCoordinator α χ)

/-- The implementation for several stages, whatever the number of stages in the plan. -/
def runMultiStageLane (fuel : ℕ) (first : BufferedStageSpec) (rest : List BufferedStageSpec)
    (currentLimit : ℕ) (records : List (SourceRecord α χ)) : BufferedDelivery α χ Unit := do
  modifyBuffered fun b => { b with stageLimit := c.bufferedStageLimit (first :: rest) currentLimit }
  c.runBuffered (c.multiVariant first) fuel first.index records

/-- The lane and the implementation for several stages hand over what the walk says. -/
theorem safe_agreement (f : UserFunctions α) (fuel : ℕ) {first : BufferedStageSpec}
    {rest : List BufferedStageSpec} (hplan : IsPlan c.chain (first :: rest)) (currentLimit : ℕ)
    (records : List (SourceRecord α χ)) {main : BufferedDelivery α χ Unit}
    (hmain : main = c.runBufferedLane fuel (first :: rest) currentLimit records ∨
      main = c.runMultiStageLane fuel first rest currentLimit records) (lastSaved : Option χ) :
    main.Safe (laneContract (f.LaneAnswers c first rest) (HandsWalks f c.chain (first :: rest)))
      (fun _ _ _ => True) (fun _ _ _ => True)
      ⟨RunState.initial ⟨[], 0⟩ lastSaved, []⟩ ⟨RunState.initial ⟨[], 0⟩ lastSaved, []⟩ := by
  have hvariant : ∀ {v : BufferedVariant α χ},
      f.Implements c v first (isStage (first :: rest)) (f.LaneAnswers c first rest) →
      ∀ w₀ w : RunWorld (BufferedState α χ) α χ, w.state.lane.pendingRecords = [] →
      (c.runBuffered v fuel first.index records).Safe
        (laneContract (f.LaneAnswers c first rest) (HandsWalks f c.chain (first :: rest)))
        (fun _ _ _ => True) (fun _ _ _ => True) w₀ w := by
    intro v I w₀ w hpending
    have hstart : PendingReached I [] w.trace := nofun
    exact ((agreementRule hplan (fun _ _ h => h.user) I records).safe_runBuffered hpending
      hstart).mono (fun _ _ _ _ => trivial) fun _ _ _ _ => trivial
  rcases hmain with rfl | rfl
  · refine c.safe_runBufferedLane rfl (fun hnil => by cases hnil)
      (fun other hother w hpending _ => ?_) fun other _ _ hother w hpending _ => ?_
    · cases hother
      exact hvariant (c.singleImplements f hplan) _ w hpending
    · cases hother
      exact hvariant (c.multiImplements f hplan) _ w hpending
  · unfold runMultiStageLane
    rw [safe_bind]
    refine safe_modifyBuffered fun w hlane _ => ?_
    exact hvariant (c.multiImplements f hplan) _ w (by rw [hlane]; rfl)

/-- In every run of the lane, and of the implementation for several stages in its place, in which the
middlewares answer as functions of the record and the future of a stage completes with what `process`
would give, a record that reports itself is handed to the delivery engine with the outcome of the plain
chain. -/
theorem dispatched_sameOutcome (f : UserFunctions α) (fuel : ℕ) {first : BufferedStageSpec}
    {rest : List BufferedStageSpec} (hplan : IsPlan c.chain (first :: rest)) (currentLimit : ℕ)
    (records : List (SourceRecord α χ)) {main : BufferedDelivery α χ Unit}
    (hmain : main = c.runBufferedLane fuel (first :: rest) currentLimit records ∨
      main = c.runMultiStageLane fuel first rest currentLimit records)
    (h : Environment α χ) (lastSaved : Option χ) (turns : List Turn) {t : RunTrace α χ}
    (ht : (c.laneRun fuel main h lastSaved turns).world.trace = t)
    (hanswers : f.LaneAnswered c first rest t) {record : SourceRecord α χ}
    {result : Option α} {failure : Option (MiddlewareFailure α)}
    (hdispatched : .mark (.dispatched record result failure) ∈ t)
    (hraw : f.ReportsRaw c.chain (first :: rest) record.raw) {h' : Environment α χ}
    (hf : f.Plays h') (w : RunWorld ℓ α χ) :
    ∃ plain w', (c.chain.processOutcome record.raw).run h' w = (.returned plain, w') ∧
      SameOutcome record.raw (result, failure) plain := by
  have hmark : ∀ (t : RunTrace α χ) (m : Mark α χ), m.IsDelivery →
      f.LaneAnswers c first rest t (.mark m) →
      HandsWalks f c.chain (first :: rest) t (.mark m) :=
    fun _ _ hm _ => handsWalks_quiet (allowsEngine_quiet.of_isDelivery hm)
  have hcall : ∀ (t : RunTrace α χ) (o : Call α χ) r,
      f.LaneAnswers c first rest t (.called o r) →
      HandsWalks f c.chain (first :: rest) t (.called o r) :=
    fun _ _ _ _ => handsWalks_called _ _
  have hsafe := c.safe_agreement f fuel hplan currentLimit records hmain lastSaved
  obtain ⟨t', ht', hpost⟩ := c.delivery.withOwner_sound hmark hcall hsafe h turns rfl
  change (c.laneRun fuel main h lastSaved turns).world.trace = _ at ht'
  rw [ht, List.nil_append] at ht'
  obtain rfl : t = t' := ht'
  obtain ⟨t₁, t₂, rfl⟩ := List.append_of_mem hdispatched
  have hhands := along_iff.mp (hpost (along_iff.mpr hanswers)).1 t₁ _ t₂ rfl record result failure rfl
  exact hhands.agrees hraw hf w

end ExecutionCoordinator

/-! ## A record that fails behind the stage -/

/-- What the second middleware raises. -/
def checkError : Exc := .external ⟨"ValueError", "bad value", .other, none, none, none⟩

/-- The first middleware makes one record of another, and the second one fails on every record. -/
def enrichFunctions (enriched : ℕ) : UserFunctions ℕ where
  process index _ := if index = 0 then .ok (some enriched) else .error checkError
  predicate _ _ := .ok true
  processBatch _ record := .ok [some record]
  onError _ _ _ := .ok ()

/-- The environment of these functions. -/
def enrichEnvironment (enriched : ℕ) : Environment ℕ ℕ
  | _, .process index record => ((enrichFunctions enriched).process index record, [])
  | _, .await (.submit _ record) => .ok record
  | _, .await (.awaitFuture _) => .ok (.value (some enriched))
  | t, o => undisturbed t o

/-- A buffered stage and a middleware behind it. -/
def checkChain : MiddlewareChain := [⟨"enrich", .perRecord, 1⟩, ⟨"check", .perRecord, 1⟩]

/-- The chain with the default configuration. -/
abbrev enrichLane : ExecutionCoordinator ℕ ℕ := .standard (.standard true) checkChain

/-- The lane over one record. -/
def enrichRun (enriched : ℕ) :
    System.Config (Call ℕ ℕ) Call.Ret (Mark ℕ ℕ) (RunState (BufferedState ℕ ℕ) ℕ ℕ) Exc Unit :=
  enrichLane.bufferedRun 4 [⟨0, "enrich", 2⟩] 0
    [⟨1, some 10, []⟩] (enrichEnvironment enriched) none (List.replicate 40 .main)

/-- The events of the run, with the record that goes to the dead-letter queue and the checkpoint. -/
def enrichEvents (enriched : ℕ) (dlqRecord : DLQRecord ℕ ℕ) (key : String)
    (checkpoint : Checkpoint ℕ) : RunTrace ℕ ℕ :=
  [.called (.await .sourceNext) (.ok ()),
    .called (.await (.submit 0 1)) (.ok 1), .called (.await .sourceNext) (.ok ()),
    .called (.await .sleep) (.ok ()), .called (.await .drainBuffered) (.ok ()),
    .called (.await .sleep) (.ok ()), .called (.futureDone 1) true,
    .called (.await (.awaitFuture 1)) (.ok (.value (some enriched))),
    .called (.process 1 enriched) (.error checkError, []),
    .called (.await (.onError 1 enriched checkError)) (.ok ()),
    .mark (.dispatched ⟨1, some 10, []⟩ none
      (some ⟨"middleware", enriched, "check", checkError⟩)),
    .called (.await (.dlqWrite dlqRecord)) (.ok ()), .mark (.settled (some 10) .routed),
    .mark (.dropping true), .called (.await (.saveCheckpoint key checkpoint)) (.ok ())]

set_option maxRecDepth 4000 in
/-- The events of the run, whichever of the two values the middleware answers. -/
theorem enrichRun_trace {enriched : ℕ} (h : enriched = 1 ∨ enriched = 7) :
    ∃ dlqRecord key checkpoint,
      (enrichRun enriched).world.trace = enrichEvents enriched dlqRecord key checkpoint := by
  rcases h with rfl | rfl
  · exact ⟨_, _, _, rfl⟩
  · exact ⟨_, _, _, rfl⟩

/-- The environment plays the functions, and the future completes with what `process` gives. -/
theorem enrichEvents_answered (enriched : ℕ) (dlqRecord : DLQRecord ℕ ℕ) (key : String)
    (checkpoint : Checkpoint ℕ) :
    (enrichFunctions enriched).LaneAnswered enrichLane ⟨0, "enrich", 2⟩ []
      (enrichEvents enriched dlqRecord key checkpoint) := by
  have hother : ∀ {t : RunTrace ℕ ℕ} {e : Event (Call ℕ ℕ) Call.Ret (Mark ℕ ℕ)},
      (enrichFunctions enriched).Answers e →
      (∀ index record r, e ≠ .called (.await (.submit index record)) r) →
      (∀ future r, e ≠ .called (.await (.awaitFuture future)) r) →
      (enrichFunctions enriched).LaneAnswers enrichLane ⟨0, "enrich", 2⟩ [] t e :=
    UserFunctions.laneAnswers_of_other
  refine UserFunctions.laneAnswered_of_along ?_
  refine ⟨hother trivial nofun nofun, ?_, hother trivial nofun nofun, hother trivial nofun nofun,
    hother trivial nofun nofun, hother trivial nofun nofun, hother trivial nofun nofun, ?_, ?_, ?_,
    hother trivial nofun nofun, hother trivial nofun nofun, hother trivial nofun nofun,
    hother trivial nofun nofun, hother trivial nofun nofun, trivial⟩
  · constructor
    · constructor
      · trivial
      · intro index record exc mw he
        cases he
      · intro future r index record mw he
        cases he
    · intro future r raw value he
      cases he
  · constructor
    · constructor
      · trivial
      · intro index record exc mw he
        cases he
      · intro future r index record mw he hsubmitted hmw
        cases he
        have hwhich : index = 0 ∧ record = 1 := by simpa using hsubmitted
        obtain ⟨rfl, rfl⟩ := hwhich
        have hmw' : checkChain[0]? = some mw := hmw
        obtain rfl : ⟨"enrich", .perRecord, 1⟩ = mw := by simpa [checkChain] using hmw'
        exact .inl rfl
    · intro future r raw value he hcreated
      simp at hcreated
  · exact hother (.inl rfl) nofun nofun
  · exact hother (.inl rfl) nofun nofun

/-- The environment plays the functions. -/
theorem enrichEnvironment_plays (enriched : ℕ) :
    (enrichFunctions enriched).Plays (enrichEnvironment enriched) where
  process := fun _ _ _ => rfl
  predicate := fun _ _ _ => rfl
  processBatch := fun _ _ _ => rfl
  onError := fun _ _ _ _ => rfl

/-- The one buffered stage is a plan of the chain. -/
theorem isPlan_checkChain : IsPlan checkChain [⟨0, "enrich", 2⟩] where
  increasing := by simp
  middleware := by simp [checkChain]

/-- The outcome that is handed over for the record 1. -/
def enrichOutcome (enriched : ℕ) : MiddlewareChain.RecordOutcome ℕ :=
  (none, some ⟨"middleware", enriched, "check", checkError⟩)

/-- The record is dispatched with the outcome of its value. -/
theorem enrichEvents_dispatched (enriched : ℕ) (dlqRecord : DLQRecord ℕ ℕ) (key : String)
    (checkpoint : Checkpoint ℕ) :
    .mark (.dispatched ⟨1, some 10, []⟩ (enrichOutcome enriched).1 (enrichOutcome enriched).2) ∈
      enrichEvents enriched dlqRecord key checkpoint := by
  simp [enrichEvents, enrichOutcome]

/-- What holds of the events holds of the run. -/
theorem enrichRun_of_events {enriched : ℕ} (h : enriched = 1 ∨ enriched = 7)
    {P : RunTrace ℕ ℕ → Prop} (hP : ∀ dlqRecord key checkpoint,
      P (enrichEvents enriched dlqRecord key checkpoint)) : P (enrichRun enriched).world.trace := by
  obtain ⟨dlqRecord, key, checkpoint, htrace⟩ := enrichRun_trace h
  exact Eq.subst (motive := P) htrace.symm (hP dlqRecord key checkpoint)

/-- The run dispatches the record with the outcome of its value. -/
theorem enrichRun_dispatched {enriched : ℕ} (h : enriched = 1 ∨ enriched = 7) :
    .mark (.dispatched ⟨1, some 10, []⟩ (enrichOutcome enriched).1 (enrichOutcome enriched).2) ∈
      (enrichRun enriched).world.trace :=
  enrichRun_of_events (P := fun t => .mark (.dispatched ⟨1, some 10, []⟩ (enrichOutcome enriched).1
    (enrichOutcome enriched).2) ∈ t) h (enrichEvents_dispatched enriched)

/-- All answers of the run are those of the functions. -/
theorem enrichRun_answered {enriched : ℕ} (h : enriched = 1 ∨ enriched = 7) :
    (enrichFunctions enriched).LaneAnswered enrichLane ⟨0, "enrich", 2⟩ []
      (enrichRun enriched).world.trace :=
  enrichRun_of_events (P := (enrichFunctions enriched).LaneAnswered enrichLane
    ⟨0, "enrich", 2⟩ []) h (enrichEvents_answered enriched)

set_option maxRecDepth 4000 in
/-- Where the stage returns the record itself, the failure behind it is that of the plain chain. -/
theorem dispatched_sameOutcome_returned :
    ∃ plain w', (checkChain.processOutcome 1).run (enrichEnvironment 1)
      (⟨RunState.initial () none, []⟩ : RunWorld Unit ℕ ℕ) = (.returned plain, w') ∧
        SameOutcome 1 (enrichOutcome 1) plain :=
  enrichLane.dispatched_sameOutcome (enrichFunctions 1) 4 isPlan_checkChain 0 [⟨1, some 10, []⟩]
    (.inl rfl) (enrichEnvironment 1) none (List.replicate 40 .main)
    (show _ = (enrichRun 1).world.trace from rfl) (enrichRun_answered (.inl rfl))
    (enrichRun_dispatched (.inl rfl)) ⟨rfl, fun _ => rfl⟩ (enrichEnvironment_plays 1) _

/-- Where it returns another record, the failure reports that record and not the one of the source. -/
theorem not_dispatched_sameOutcome_replaced :
    (enrichFunctions 7).LaneAnswered enrichLane ⟨0, "enrich", 2⟩ [] (enrichRun 7).world.trace ∧
      .mark (.dispatched ⟨1, some 10, []⟩ (enrichOutcome 7).1 (enrichOutcome 7).2) ∈
        (enrichRun 7).world.trace ∧
      ¬ ∃ plain w', (checkChain.processOutcome 1).run (enrichEnvironment 7)
        (⟨RunState.initial () none, []⟩ : RunWorld Unit ℕ ℕ) = (.returned plain, w') ∧
          SameOutcome 1 (enrichOutcome 7) plain := by
  refine ⟨enrichRun_answered (.inr rfl), enrichRun_dispatched (.inr rfl), ?_⟩
  rintro ⟨plain, w', -, hsame⟩
  have hraw := hsame.raw _ rfl
  exact absurd hraw (by decide)

end AgoraEtl
