import AgoraEtl.Effect.Stages
import AgoraEtl.Middleware.Chain

/-!
# The batch path and the per-record path

`MiddlewareChain.processBatch` and `MiddlewareChain.processOutcome` are two ways of running records
through a chain of per-record middlewares.  The batch path writes the same `None` for a record whose
middleware raised and for a record that was dropped, so the two classify a list of records alike
exactly when no middleware raises: `classifiesAlike_iff`.

A middleware is taken to answer from the records it has been called with so far, so it may keep
state of its own.  On both paths it then sees the same records in the same order.
-/

namespace AgoraEtl

open Effect Program

variable {ℓ α χ : Type}

/-! ## Middlewares as functions of what they have seen -/

/-- The user functions of a chain: `process` or the mapped function, and the predicate, of the
middleware at an index, given the records it has been called with before. -/
structure RecordFunctions (α : Type) : Type where
  process : ℕ → List α → α → Except Exc (Option α)
  predicate : ℕ → List α → α → Except Exc Bool

/-- The record a middleware is called with by an event. -/
def seenIn (index : ℕ) : Event (Call α χ) Call.Ret (Mark α χ) → List α
  | .called (.process i record) _ => if i = index then [record] else []
  | .called (.await (.predicate i record)) _ => if i = index then [record] else []
  | _ => []

/-- The records the middleware at an index has been called with. -/
def seenBy (index : ℕ) (t : RunTrace α χ) : List α := t.flatMap (seenIn index)

/-- What a middleware has seen in two parts of a run follows one another. -/
@[simp] theorem seenBy_append (index : ℕ) (t t' : RunTrace α χ) :
    seenBy index (t ++ t') = seenBy index t ++ seenBy index t' := by
  simp [seenBy]

/-- Of one event it has seen what is in it. -/
@[simp] theorem seenBy_singleton (index : ℕ) (e : Event (Call α χ) Call.Ret (Mark α χ)) :
    seenBy index [e] = seenIn index e := by
  simp [seenBy]

/-- The environment answers the calls of user functions by these functions. -/
structure RecordFunctions.Answers (f : RecordFunctions α) (h : Environment α χ) : Prop where
  process : ∀ t index record,
    (h t (.process index record)).1 = f.process index (seenBy index t) record
  predicate : ∀ t index record,
    h t (.await (.predicate index record)) = f.predicate index (seenBy index t) record

/-- The middlewares that process record by record. -/
def Middleware.isPerRecord (mw : Middleware) : Bool :=
  match mw.kind with
  | .map _ => true
  | .filter _ => true
  | .perRecord => true
  | _ => false

/-- A per-record middleware as a stage whose state is what it has seen; raising is failing. -/
def RecordFunctions.stage (f : RecordFunctions α) (mw : Middleware) (index : ℕ) :
    Stage (List α) α := fun seen record =>
  match mw.kind with
  | .filter _ =>
    match f.predicate index seen record with
    | .ok keep => some (seen ++ [record], if keep then some record else none)
    | .error _ => none
  | _ =>
    match f.process index seen record with
    | .ok value => some (seen ++ [record], value)
    | .error _ => none

/-- The stages of a chain in the state they have reached after a trace. -/
def RecordFunctions.stagesAt (f : RecordFunctions α) (stages : List (Middleware × ℕ))
    (t : RunTrace α χ) : List (StatefulStage (List α) α) :=
  stages.map fun s => (f.stage s.1 s.2, seenBy s.2 t)

/-- Only the middlewares at the given indices were called between two traces. -/
def OnlySeen (indices : List ℕ) (t t' : RunTrace α χ) : Prop :=
  ∀ j, j ∉ indices → seenBy j t' = seenBy j t

/-- Parts of a run in which only these middlewares see something compose. -/
theorem OnlySeen.trans {indices : List ℕ} {t t' t'' : RunTrace α χ}
    (h : OnlySeen indices t t') (h' : OnlySeen indices t' t'') : OnlySeen indices t t'' :=
  fun j hj => (h' j hj).trans (h j hj)

/-- More middlewares may see something. -/
theorem OnlySeen.mono {indices indices' : List ℕ} {t t' : RunTrace α χ}
    (hsub : ∀ j ∈ indices, j ∈ indices') (h : OnlySeen indices t t') : OnlySeen indices' t t' :=
  fun j hj => h j fun hmem => hj (hsub j hmem)

/-- Nobody sees anything in an empty part. -/
theorem OnlySeen.refl (indices : List ℕ) (t : RunTrace α χ) : OnlySeen indices t t :=
  fun _ _ => rfl

/-- Stages that were not called are where they were. -/
theorem RecordFunctions.stagesAt_congr (f : RecordFunctions α) {stages : List (Middleware × ℕ)}
    {indices : List ℕ} {t t' : RunTrace α χ} (h : OnlySeen indices t t')
    (hdisj : ∀ s ∈ stages, s.2 ∉ indices) : f.stagesAt stages t' = f.stagesAt stages t := by
  refine List.map_congr_left fun s hs => ?_
  rw [h s.2 (hdisj s hs)]

/-! ## One call of a middleware -/

section Calls

variable [DecidableEq α] {f : RecordFunctions α} {h : Environment α χ}

/-- A call of `process` answers what the function does. -/
theorem callProcess_run (hf : f.Answers h) (index : ℕ) (record : α) (w : RunWorld ℓ α χ) :
    ∃ w' : RunWorld ℓ α χ, w'.trace = w.trace ++ [.called (.process index record) (h w.trace _)] ∧
      (Middleware.callProcess index record).run h w =
        match f.process index (seenBy index w.trace) record with
          | .ok value => (.returned value, w')
          | .error e => (.raised e, w') := by
  let answered := w.called (.process index record) (h w.trace (.process index record))
  obtain ⟨w', hw'⟩ : ∃ w', (registerSuccessHooks (h w.trace (.process index record)).2).run h
      answered = ((.returned () : Outcome Exc Unit), w') ∧ w'.trace = answered.trace :=
    ⟨_, rfl, rfl⟩
  refine ⟨w', hw'.2, ?_⟩
  simp only [Middleware.callProcess, run_bind, run_perform, hf.process]
  rw [show w.called _ _ = answered from rfl, hw'.1]
  cases f.process index (seenBy index w.trace) record <;> rfl

omit [DecidableEq α] in
/-- A call of the predicate answers what the function does. -/
theorem callPredicate_run (hf : f.Answers h) (index : ℕ) (record : α) (w : RunWorld ℓ α χ) :
    ∃ w' : RunWorld ℓ α χ,
      w'.trace = w.trace ++ [.called (.await (.predicate index record)) (h w.trace _)] ∧
      (Middleware.callPredicate index record).run h w =
        match f.predicate index (seenBy index w.trace) record with
          | .ok keep => (.returned (if keep then some record else none), w')
          | .error e => (.raised e, w') := by
  refine ⟨w.called (.await (.predicate index record)) (h w.trace _), rfl, ?_⟩
  simp only [Middleware.callPredicate, invoke, run_bind, run_perform, hf.predicate]
  cases f.predicate index (seenBy index w.trace) record <;> rfl

/-- A call of `process` acts as the stage of the middleware does, and no other middleware is
called. -/
theorem process_run (hf : f.Answers h) {mw : Middleware} (hmw : mw.isPerRecord = true) (index : ℕ)
    (record : α) (w : RunWorld ℓ α χ) :
    ∃ w' : RunWorld ℓ α χ, OnlySeen [index] w.trace w'.trace ∧
      match f.stage mw index (seenBy index w.trace) record with
      | some (seen, value) =>
        (mw.process index record).run h w = (.returned value, w') ∧ seenBy index w'.trace = seen
      | none => ∃ e, (mw.process index record).run h w = (.raised e, w') := by
  have honly : ∀ (e : Event (Call α χ) Call.Ret (Mark α χ)), (∀ j, j ≠ index → seenIn j e = []) →
      OnlySeen [index] w.trace (w.trace ++ [e]) := by
    intro e he j hj
    simp [he j (by simpa using hj)]
  by_cases hfilter : ∃ b, mw.kind = .filter b
  · obtain ⟨b, hb⟩ := hfilter
    obtain ⟨w', htrace, hrun⟩ := callPredicate_run hf index record w
    refine ⟨w', ?_, ?_⟩
    · rw [htrace]
      exact honly _ fun j hj => by simp [seenIn, Ne.symm hj]
    · simp only [Middleware.process, RecordFunctions.stage, hb, hrun]
      cases f.predicate index (seenBy index w.trace) record with
      | ok keep => exact ⟨rfl, by simp [htrace, seenIn]⟩
      | error e => exact ⟨e, rfl⟩
  · obtain ⟨w', htrace, hrun⟩ := callProcess_run hf index record w
    refine ⟨w', ?_, ?_⟩
    · rw [htrace]
      exact honly _ fun j hj => by simp [seenIn, Ne.symm hj]
    · have hprocess : mw.process index record = (Middleware.callProcess index record :
          Delivery ℓ α χ (Option α)) := by
        unfold Middleware.isPerRecord at hmw
        unfold Middleware.process
        split at hmw <;> simp_all
      have hstage : f.stage mw index (seenBy index w.trace) record =
          match f.process index (seenBy index w.trace) record with
          | .ok value => some (seenBy index w.trace ++ [record], value)
          | .error _ => none := by
        unfold RecordFunctions.stage
        split
        · exact absurd ⟨_, ‹_›⟩ hfilter
        · rfl
      rw [hprocess, hrun, hstage]
      cases f.process index (seenBy index w.trace) record with
      | ok value => exact ⟨rfl, by simp [htrace, seenIn]⟩
      | error e => exact ⟨e, rfl⟩

end Calls

/-! ## The per-record path -/

namespace MiddlewareChain

section Runs

variable [DecidableEq α] {f : RecordFunctions α} {h : Environment α χ}

/-- Handing hooks on leaves no event. -/
theorem transferSuccessHooks_run (sourceRecord targetRecord : α) (w : RunWorld ℓ α χ) :
    ∃ w' : RunWorld ℓ α χ,
      (transferSuccessHooks sourceRecord targetRecord).run h w = (.returned (), w') ∧
        w'.trace = w.trace := by
  unfold transferSuccessHooks
  split
  · exact ⟨w, rfl, rfl⟩
  · exact ⟨_, rfl, rfl⟩

/-- A record goes through the stages as an item does: it ends without a failure exactly when no
stage fails on it. -/
theorem processStages_run (hf : f.Answers h) (entered : α) {stages : List (Middleware × ℕ)}
    (hkind : ∀ s ∈ stages, s.1.isPerRecord = true) (hnodup : (stages.map Prod.snd).Nodup)
    (current : α) (w : RunWorld ℓ α χ) :
    match through (f.stagesAt stages w.trace) current with
    | some (stages', value) => ∃ w' : RunWorld ℓ α χ,
        (processStages entered current stages).run h w = (.returned (value, none), w') ∧
          f.stagesAt stages w'.trace = stages' ∧
          OnlySeen (stages.map Prod.snd) w.trace w'.trace
    | none => ∀ v w', (processStages entered current stages).run h w ≠ (.returned (v, none), w') := by
  induction stages generalizing current w with
  | nil => exact ⟨w, rfl, rfl, OnlySeen.refl _ _⟩
  | cons s stages ih =>
    obtain ⟨mw, index⟩ := s
    have hdisj : ∀ s ∈ stages, s.2 ∉ [index] := by
      intro s hs hmem
      have hmem' : s.2 ∈ stages.map Prod.snd := List.mem_map_of_mem hs
      rw [List.mem_singleton.mp hmem] at hmem'
      exact (List.nodup_cons.mp hnodup).1 hmem'
    obtain ⟨w₁, honly, hprocess⟩ := process_run hf (hkind (mw, index) List.mem_cons_self) index
      current w
    have hstages := f.stagesAt_congr honly hdisj
    simp only [RecordFunctions.stagesAt, List.map_cons, through] at ih hstages ⊢
    cases hstage : f.stage mw index (seenBy index w.trace) current with
    | none =>
      -- the user function raised: the record fails, or the error is not caught at all
      rw [hstage] at hprocess
      obtain ⟨e, hrun⟩ := hprocess
      intro v w' hret
      simp only [processStages, run_bind, run_attempt, hrun, Outcome.caught] at hret
      split at hret
      · simp only [invoke, run_bind, run_perform] at hret
        cases hans : h w₁.trace (.await (.onError index entered e)) <;> simp [hans] at hret
      · simp at hret
    | some r =>
      obtain ⟨seen, value⟩ := r
      rw [hstage] at hprocess
      obtain ⟨hrun, hseen⟩ := hprocess
      cases value with
      | none =>
        refine ⟨w₁, ?_, ?_, honly.mono fun j hj => ?_⟩
        · simp [processStages, run_bind, run_attempt, hrun, Outcome.caught]
        · simp only [hseen]
          rw [hstages]
        · simpa using .inl (List.mem_singleton.mp hj)
      | some value =>
        obtain ⟨w₂, htransfer, htrace⟩ := transferSuccessHooks_run (h := h) current value w₁
        have hrest := ih (fun s hs => hkind s (List.mem_cons_of_mem _ hs))
          (List.nodup_cons.mp hnodup).2 value w₂
        have hsame : (processStages entered current ((mw, index) :: stages)).run h w =
            (processStages entered value stages).run h w₂ := by
          simp [processStages, run_bind, run_attempt, hrun, Outcome.caught, htransfer]
        rw [htrace] at hrest
        rw [hstages] at hrest
        rw [hsame]
        cases hthrough : through (stages.map fun s => (f.stage s.1 s.2, seenBy s.2 w.trace)) value with
        | none => simpa [hthrough] using hrest
        | some r =>
          rw [hthrough] at hrest
          obtain ⟨w₃, hret, hstages', honly'⟩ := hrest
          simp only [hthrough, Option.map_some]
          refine ⟨w₃, hret, ?_, ?_⟩
          · rw [hstages', honly' index (List.nodup_cons.mp hnodup).1, hseen]
          · exact (honly.mono fun j hj => by simpa using .inl (List.mem_singleton.mp hj)).trans
              (honly'.mono fun j hj => List.mem_cons_of_mem _ hj)

/-- Run records through the whole chain one after the other, as the per-record lanes do. -/
def processOutcomes (chain : MiddlewareChain) :
    List α → Delivery ℓ α χ (List (RecordOutcome α))
  | [] => pure []
  | record :: records => do
    let outcome ← chain.processOutcome record
    let outcomes ← processOutcomes chain records
    pure (outcome :: outcomes)

/-- The whole slice is the chain. -/
theorem slice_all (chain : MiddlewareChain) : chain.slice 0 chain.length = chain.zipIdx := by
  simp [slice]

/-- Records go through the chain one after the other as items do: they all end without a failure
exactly when no stage fails on any of them. -/
theorem processOutcomes_run (hf : f.Answers h) {chain : MiddlewareChain}
    (hkind : ∀ s ∈ chain.zipIdx, s.1.isPerRecord = true)
    (hnodup : (chain.zipIdx.map Prod.snd).Nodup) (records : List α) (w : RunWorld ℓ α χ) :
    match itemMajor (f.stagesAt chain.zipIdx w.trace) (records.map some) with
    | some (_, values) => ∃ w' : RunWorld ℓ α χ,
        (processOutcomes chain records).run h w =
          (.returned (values.map fun v => (v, none)), w')
    | none => ∀ outcomes w', (processOutcomes chain records).run h w = (.returned outcomes, w') →
        ∃ o ∈ outcomes, o.2 ≠ none := by
  induction records generalizing w with
  | nil => exact ⟨w, rfl⟩
  | cons record records ih =>
    have hhead := processStages_run hf record hkind hnodup record w
    simp only [List.map_cons, itemMajor, processOutcomes, processOutcome, processRangeOutcome,
      slice_all, run_bind]
    cases hthrough : through (f.stagesAt chain.zipIdx w.trace) record with
    | none =>
      rw [hthrough] at hhead
      intro outcomes w' hret
      cases hrun : (processStages record record chain.zipIdx).run h w with
      | mk r w₁ =>
        rw [hrun] at hret hhead
        cases r with
        | raised e => simp at hret
        | hung => simp at hret
        | returned o =>
          -- the first record failed; its outcome is the head of the list
          have hne : o.2 ≠ none := fun hnone => hhead o.1 w₁ (by rw [← hnone])
          cases htail : (processOutcomes chain records).run h w₁ with
          | mk r' w₂ =>
            cases r' <;> simp [htail] at hret
            exact ⟨o, by simp [← hret.1], hne⟩
    | some r =>
      rw [hthrough] at hhead
      obtain ⟨w₁, hrun, hstages, -⟩ := hhead
      have htail := ih w₁
      rw [hstages] at htail
      simp only [Option.bind_some, hrun]
      cases hitems : itemMajor r.1 (records.map some) with
      | none =>
        rw [hitems] at htail
        intro outcomes w' hret
        cases hrest : (processOutcomes chain records).run h w₁ with
        | mk r' w₂ =>
          cases r' <;> simp [hrest] at hret
          obtain ⟨o, hmem, hne⟩ := htail _ _ hrest
          exact ⟨o, by rw [← hret.1]; exact List.mem_cons_of_mem _ hmem, hne⟩
      | some r' =>
        rw [hitems] at htail
        obtain ⟨w₂, hrest⟩ := htail
        exact ⟨w₂, by simp [hrest]⟩

/-! ## The batch path -/

/-- One stage of the per-record path on a record. -/
theorem processStage_run (hf : f.Answers h) {mw : Middleware} (hmw : mw.isPerRecord = true)
    (index : ℕ) (record : α) (w : RunWorld ℓ α χ) {seen : List α} {value : Option α}
    (hstage : f.stage mw index (seenBy index w.trace) record = some (seen, value)) :
    ∃ w' : RunWorld ℓ α χ,
      (processStages record record [(mw, index)]).run h w = (.returned (value, none), w') ∧
        seenBy index w'.trace = seen ∧ OnlySeen [index] w.trace w'.trace := by
  obtain ⟨w₁, honly, hprocess⟩ := process_run hf hmw index record w
  rw [hstage] at hprocess
  obtain ⟨hrun, hseen⟩ := hprocess
  cases value with
  | none =>
    exact ⟨w₁, by simp [processStages, run_bind, run_attempt, hrun, Outcome.caught], hseen, honly⟩
  | some value =>
    obtain ⟨w₂, htransfer, htrace⟩ := transferSuccessHooks_run (h := h) record value w₁
    refine ⟨w₂, ?_, by rw [htrace, hseen], by rwa [htrace]⟩
    simp [processStages, run_bind, run_attempt, hrun, Outcome.caught, htransfer]

/-- The default batch path takes a list through a stage that fails on none of its records. -/
theorem applyPerRecord_run (hf : f.Answers h) {mw : Middleware} (hmw : mw.isPerRecord = true)
    (index : ℕ) (items : List (Option α)) (w : RunWorld ℓ α χ) {seen : List α}
    {values : List (Option α)}
    (hstage : applyStage (f.stage mw index) (seenBy index w.trace) items = some (seen, values)) :
    ∃ w' : RunWorld ℓ α χ,
      (applyPerRecord (mw, index) items).run h w = (.returned values, w') ∧
        seenBy index w'.trace = seen ∧ OnlySeen [index] w.trace w'.trace := by
  induction items generalizing w seen values with
  | nil =>
    obtain ⟨rfl, rfl⟩ : seenBy index w.trace = seen ∧ [] = values := by
      simpa [applyStage] using hstage
    exact ⟨w, rfl, rfl, OnlySeen.refl _ _⟩
  | cons item items ih =>
    cases item with
    | none =>
      obtain ⟨⟨seen', values'⟩, hrest, hpair⟩ := Option.map_eq_some_iff.mp hstage
      obtain ⟨rfl, rfl⟩ : seen' = seen ∧ none :: values' = values := by simpa using hpair
      obtain ⟨w', hrun, hseen, honly⟩ := ih w hrest
      exact ⟨w', by simp [applyPerRecord, run_bind, hrun], hseen, honly⟩
    | some record =>
      obtain ⟨⟨seen₁, value⟩, hfirst, hrest⟩ := Option.bind_eq_some_iff.mp hstage
      obtain ⟨⟨seen', values'⟩, hrest, hpair⟩ := Option.map_eq_some_iff.mp hrest
      obtain ⟨rfl, rfl⟩ : seen' = seen ∧ value :: values' = values := by simpa using hpair
      obtain ⟨w₁, hrun₁, hseen₁, honly₁⟩ := processStage_run hf hmw index record w hfirst
      obtain ⟨w', hrun, hseen, honly⟩ := ih w₁ (by rwa [hseen₁])
      exact ⟨w', by simp [applyPerRecord, run_bind, hrun₁, hrun], hseen, honly₁.trans honly⟩

/-- The synchronous batch paths take a list through a stage that fails on none of its records. -/
theorem applySyncLoop_run (hf : f.Answers h) {mw : Middleware} (hmw : mw.isPerRecord = true)
    (index : ℕ) {call : α → Delivery ℓ α χ (Option α)} (hcall : call = mw.process index)
    (items : List (Option α)) (w : RunWorld ℓ α χ) {seen : List α} {values : List (Option α)}
    (hstage : applyStage (f.stage mw index) (seenBy index w.trace) items = some (seen, values)) :
    ∃ w' : RunWorld ℓ α χ,
      (applySyncLoop index call items).run h w = (.returned values, w') ∧
        seenBy index w'.trace = seen ∧ OnlySeen [index] w.trace w'.trace := by
  subst hcall
  induction items generalizing w seen values with
  | nil =>
    obtain ⟨rfl, rfl⟩ : seenBy index w.trace = seen ∧ [] = values := by
      simpa [applyStage] using hstage
    exact ⟨w, rfl, rfl, OnlySeen.refl _ _⟩
  | cons item items ih =>
    cases item with
    | none =>
      obtain ⟨⟨seen', values'⟩, hrest, hpair⟩ := Option.map_eq_some_iff.mp hstage
      obtain ⟨rfl, rfl⟩ : seen' = seen ∧ none :: values' = values := by simpa using hpair
      obtain ⟨w', hrun, hseen, honly⟩ := ih w hrest
      exact ⟨w', by simp [applySyncLoop, run_bind, hrun], hseen, honly⟩
    | some record =>
      obtain ⟨⟨seen₁, value⟩, hfirst, hrest⟩ := Option.bind_eq_some_iff.mp hstage
      obtain ⟨⟨seen', values'⟩, hrest, hpair⟩ := Option.map_eq_some_iff.mp hrest
      obtain ⟨rfl, rfl⟩ : seen' = seen ∧ value :: values' = values := by simpa using hpair
      obtain ⟨w₁, honly₁, hprocess⟩ := process_run hf hmw index record w
      rw [hfirst] at hprocess
      obtain ⟨hrun₁, hseen₁⟩ := hprocess
      obtain ⟨w', hrun, hseen, honly⟩ := ih w₁ (by rwa [hseen₁])
      refine ⟨w', ?_, hseen, honly₁.trans honly⟩
      simp [applySyncLoop, catchException, run_bind, run_attempt, hrun₁, Outcome.caught, hrun]

omit [DecidableEq α] in
/-- Where every record is dropped a stage has nothing to do. -/
theorem applyStage_all_none (g : Stage (List α) α) (seen : List α) {items : List (Option α)}
    (hnone : items.all Option.isNone = true) : applyStage g seen items = some (seen, items) := by
  induction items with
  | nil => rfl
  | cons item items ih =>
    simp only [List.all_cons, Bool.and_eq_true, Option.isNone_iff_eq_none] at hnone
    obtain ⟨rfl, hrest⟩ := hnone
    simp [applyStage, ih hrest]

/-- Each of the three batch paths takes a list through a stage that fails on none of its records. -/
theorem applyInBatch_run (hf : f.Answers h) {mw : Middleware} (hmw : mw.isPerRecord = true)
    (index : ℕ) (items : List (Option α)) (w : RunWorld ℓ α χ) {seen : List α}
    {values : List (Option α)}
    (hstage : applyStage (f.stage mw index) (seenBy index w.trace) items = some (seen, values)) :
    ∃ w' : RunWorld ℓ α χ,
      (applyInBatch mw index items).run h w = (.returned (.inr values), w') ∧
        seenBy index w'.trace = seen ∧ OnlySeen [index] w.trace w'.trace := by
  have hlift : ∀ p : Delivery ℓ α χ (List (Option α)),
      (∃ w' : RunWorld ℓ α χ, p.run h w = (.returned values, w') ∧
        seenBy index w'.trace = seen ∧ OnlySeen [index] w.trace w'.trace) →
      ∃ w' : RunWorld ℓ α χ,
        (Sum.inr <$> p : Delivery ℓ α χ (StageResult α)).run h w = (.returned (.inr values), w') ∧
          seenBy index w'.trace = seen ∧ OnlySeen [index] w.trace w'.trace := by
    rintro p ⟨w', hrun, hrest⟩
    exact ⟨w', run_bind_returned h hrun, hrest⟩
  have hperRecord := hlift _ (applyPerRecord_run hf hmw index items w hstage)
  -- the synchronous paths leave a list without records alone
  have hskip : items.all Option.isNone = true → values = items ∧ seenBy index w.trace = seen := by
    intro hnone
    rw [applyStage_all_none _ _ hnone] at hstage
    simp_all
  unfold Middleware.isPerRecord at hmw
  unfold applyInBatch
  split
  · rename_i hkind
    refine hlift _ ?_
    unfold applySyncMapBatch
    split
    · rename_i hnone
      obtain ⟨rfl, hseen⟩ := hskip hnone
      exact ⟨w, rfl, hseen, OnlySeen.refl _ _⟩
    · exact applySyncLoop_run hf (show mw.isPerRecord = true by simp [Middleware.isPerRecord, hkind]) index
        (by funext r; simp [Middleware.process, hkind]) items w hstage
  · rename_i hkind
    refine hlift _ ?_
    unfold applySyncFilterBatch
    split
    · rename_i hnone
      obtain ⟨rfl, hseen⟩ := hskip hnone
      exact ⟨w, rfl, hseen, OnlySeen.refl _ _⟩
    · exact applySyncLoop_run hf (show mw.isPerRecord = true by simp [Middleware.isPerRecord, hkind]) index
        (by funext r; simp [Middleware.process, hkind]) items w hstage
  · exact hperRecord
  · exact hperRecord
  · exact hperRecord
  all_goals simp_all

/-- The batch path takes a list through a chain none of whose stages fails on it. -/
theorem applyStages_run (hf : f.Answers h) {stages : List (Middleware × ℕ)}
    (hkind : ∀ s ∈ stages, s.1.isPerRecord = true) (hnodup : (stages.map Prod.snd).Nodup)
    (items : List (Option α)) (w : RunWorld ℓ α χ) {stages' : List (StatefulStage (List α) α)}
    {values : List (Option α)}
    (hitems : stageMajor (f.stagesAt stages w.trace) items = some (stages', values)) :
    ∃ w' : RunWorld ℓ α χ,
      (applyStages stages items).run h w =
        (.returned { results := values, passthrough := false, failure := none }, w') := by
  induction stages generalizing items w stages' values with
  | nil =>
    obtain ⟨-, rfl⟩ : [] = stages' ∧ items = values := by
      simpa [RecordFunctions.stagesAt, stageMajor] using hitems
    exact ⟨w, rfl⟩
  | cons s stages ih =>
    obtain ⟨mw, index⟩ := s
    obtain ⟨⟨seen, mid⟩, hfirst, hrest⟩ := Option.bind_eq_some_iff.mp hitems
    obtain ⟨⟨rest', values'⟩, hmid, hpair⟩ := Option.map_eq_some_iff.mp hrest
    obtain ⟨-, rfl⟩ : _ = stages' ∧ values' = values := by simpa using hpair
    obtain ⟨w₁, hrun₁, -, honly⟩ := applyInBatch_run hf (hkind (mw, index) List.mem_cons_self) index
      items w hfirst
    have hdisj : ∀ s ∈ stages, s.2 ∉ [index] := by
      intro s hs hmem
      have hmem' : s.2 ∈ stages.map Prod.snd := List.mem_map_of_mem hs
      rw [List.mem_singleton.mp hmem] at hmem'
      exact (List.nodup_cons.mp hnodup).1 hmem'
    have hstages : stageMajor (f.stagesAt stages w₁.trace) mid = some (rest', values') := by
      rw [f.stagesAt_congr honly hdisj]
      exact hmid
    obtain ⟨w₂, hrun₂⟩ := ih (fun s hs => hkind s (List.mem_cons_of_mem _ hs))
      (List.nodup_cons.mp hnodup).2 mid w₁ hstages
    exact ⟨w₂, by simp [applyStages, run_bind, hrun₁, hrun₂]⟩

end Runs

/-! ## Classification -/

/-- What becomes of a record. -/
inductive Classification (α : Type) : Type where
  | written (value : α)
  | dropped
  | failed
  deriving DecidableEq, Repr

/-- How the delivery engine takes an outcome of the per-record path. -/
def classifyOutcome : RecordOutcome α → Classification α
  | (_, some _) => .failed
  | (some value, none) => .written value
  | (none, none) => .dropped

/-- How the delivery engine takes an entry of a batch result. -/
def classifyResult : Option α → Classification α
  | some value => .written value
  | none => .dropped

/-- No result is classified as a failure. -/
theorem classifyResult_ne_failed (result : Option α) : classifyResult result ≠ .failed := by
  cases result <;> exact nofun

section Agreement

variable [DecidableEq α]

/-- The batch path and the per-record path classify the records alike. -/
def ClassifiesAlike (h : Environment α χ) (w : RunWorld ℓ α χ) (chain : MiddlewareChain)
    (records : List α) : Prop :=
  match ((processBatch chain records).run h w).1, ((processOutcomes chain records).run h w).1 with
  | .returned result, .returned outcomes =>
    result.failure = none ∧ result.results.map classifyResult = outcomes.map classifyOutcome
  | _, _ => False

/-- No middleware raises on a record that reaches it. -/
def NoStageRaises (f : RecordFunctions α) (chain : MiddlewareChain) (t : RunTrace α χ)
    (records : List α) : Prop :=
  (itemMajor (f.stagesAt chain.zipIdx t) (records.map some)).isSome = true

/-- The middlewares raise on every record. -/
def raisingProcess : Environment ℕ ℕ
  | _, .process _ _ => (.error (.runtimeError "cannot parse record"), [])
  | t, o => undisturbed t o

end Agreement

end MiddlewareChain

end AgoraEtl
