import AgoraEtl.Effect.Safety
import AgoraEtl.Middleware.Chain

/-!
# What the user functions of a chain make of a record

When every middleware answers as a function of the record, a record goes through a list of stages in
one definite way, `UserFunctions.walk`: it comes out with a value, is dropped, or some middleware fails
on it.  A walk may be cut at some of the stages, and a fault remembers the record with which the piece
of the failing middleware was entered, since that is the record `processStages` reports.
-/

namespace AgoraEtl

open Effect Program

variable {ℓ α χ : Type}

/-- The user functions of a chain by the index of the middleware; `processBatch` is that of one
record. -/
structure UserFunctions (α : Type) : Type where
  process : ℕ → α → Except Exc (Option α)
  predicate : ℕ → α → Except Exc Bool
  processBatch : ℕ → α → Except Exc (List (Option α))
  onError : ℕ → α → Exc → Except Exc Unit

/-- A middleware failed on a record, in a piece of the chain that was entered with some record. -/
structure Fault (α : Type) : Type where
  middleware : Middleware
  index : ℕ
  exception : Exc
  entered : α

namespace UserFunctions

variable (f : UserFunctions α)

/-- What `process` of the middleware at the index gives. -/
def value (mw : Middleware) (index : ℕ) (record : α) : Except Exc (Option α) :=
  match mw.kind with
  | .filter _ => (f.predicate index record).map fun keep => if keep then some record else none
  | .batch => (f.processBatch index record).map fun results => results.head?.bind id
  | .processBatch => .error (.runtimeError
      (s!"ProcessBatchMiddleware '{mw.name}' requires a batch-capable source; " ++
        "per-record execution is not supported."))
  | .arrowBatch => .ok (some record)
  | .arrowProcessBatch => .ok (some record)
  | _ => f.process index record

/-- Take a record through the stages; the walk is cut behind the stages at the given indices. -/
def walk (cut : ℕ → Bool) : α → α → List (Middleware × ℕ) → Except (Fault α) (Option α)
  | _, current, [] => .ok (some current)
  | entered, current, (mw, index) :: stages =>
    match f.value mw index current with
    | .error exc => .error ⟨mw, index, exc, entered⟩
    | .ok none => .ok none
    | .ok (some next) => walk cut (if cut index then next else entered) next stages

theorem walk_cons (cut : ℕ → Bool) (entered current : α) (mw : Middleware) (index : ℕ)
    (stages : List (Middleware × ℕ)) :
    f.walk cut entered current ((mw, index) :: stages) =
      match f.value mw index current with
      | .error exc => .error ⟨mw, index, exc, entered⟩
      | .ok none => .ok none
      | .ok (some next) => f.walk cut (if cut index then next else entered) next stages := rfl

/-! ## Walks in pieces -/

section Pieces

variable {cut : ℕ → Bool} {entered current : α}

/-- A piece without cuts is walked with the record it was entered with. -/
theorem walk_append {stages stages' : List (Middleware × ℕ)}
    (hcut : ∀ s ∈ stages, cut s.2 = false) :
    f.walk cut entered current (stages ++ stages') =
      match f.walk cut entered current stages with
      | .ok (some next) => f.walk cut entered next stages'
      | result => result := by
  induction stages generalizing current with
  | nil => rfl
  | cons s stages ih =>
    obtain ⟨mw, index⟩ := s
    have hindex : cut index = false := hcut (mw, index) List.mem_cons_self
    have hrest : ∀ s ∈ stages, cut s.2 = false := fun s hs => hcut s (List.mem_cons_of_mem _ hs)
    rw [List.cons_append, walk_cons, walk_cons, hindex]
    cases f.value mw index current with
    | error exc => rfl
    | ok value =>
      cases value with
      | none => rfl
      | some next => exact ih hrest

end Pieces

/-! ## Calls answered by the functions -/

/-- An awaited function gives what is expected of it, unless the waiting task is interrupted. -/
def Gives {β : Type} (answer expected : Except Exc β) : Prop :=
  answer = expected ∨ ∃ e, answer = .error e ∧ e.isException = false

/-- The calls of user functions are answered by these functions. -/
def Answers : Event (Call α χ) Call.Ret (Mark α χ) → Prop
  | .called (.process index record) r => Gives r.1 (f.process index record)
  | .called (.await (.predicate index record)) r => Gives r (f.predicate index record)
  | .called (.await (.processBatch index [some record])) r => Gives r (f.processBatch index record)
  | .called (.await (.onError index record exc)) r => Gives r (f.onError index record exc)
  | _ => True

variable [DecidableEq α] {assume : RunTrace α χ → Event (Call α χ) Call.Ret (Mark α χ) → Prop}
  {w₀ w : RunWorld ℓ α χ}

omit [DecidableEq α] in
/-- An awaited user function. -/
theorem safe_invoke_gives {a : Await α χ} {expected : Except Exc a.Value}
    (ha : ∀ t r, assume t (.called (.await a) r) → Gives r expected) :
    (invoke a : Delivery ℓ α χ a.Value).Safe (.observing assume)
      (fun v _ _ => expected = .ok v) (fun e _ _ => expected = .error e ∨ e.isException = false)
      w₀ w := by
  unfold invoke
  rw [safe_bind, safe_perform]
  refine ⟨trivial, fun w₁ _ r _ hr => ⟨trivial, ?_⟩⟩
  rcases ha _ _ hr with rfl | ⟨e, rfl, he⟩
  · cases r with
    | ok v => exact rfl
    | error e => exact .inl rfl
  · exact .inr he

/-- `process` of a middleware gives its value. -/
theorem safe_process (hassume : ∀ t e, assume t e → f.Answers e) (mw : Middleware) (index : ℕ)
    (record : α) :
    (mw.process index record : Delivery ℓ α χ (Option α)).Safe (.observing assume)
      (fun v _ _ => f.value mw index record = .ok v)
      (fun e _ _ => f.value mw index record = .error e ∨ e.isException = false) w₀ w := by
  have hcall : (Middleware.callProcess index record : Delivery ℓ α χ (Option α)).Safe
      (.observing assume) (fun v _ _ => f.process index record = .ok v)
      (fun e _ _ => f.process index record = .error e ∨ e.isException = false) w₀ w := by
    unfold Middleware.callProcess registerSuccessHooks
    rw [safe_bind]
    refine safe_perform.mpr ⟨trivial, fun w₁ _ r _ hr => ⟨trivial, ?_⟩⟩
    obtain ⟨answer, hooks⟩ := r
    have hgives : Gives answer (f.process index record) := hassume _ _ hr
    rw [safe_bind, safe_modify, safe_ofExcept]
    rcases hgives with rfl | ⟨e, rfl, he⟩
    · cases f.process index record with
      | ok v => exact rfl
      | error e => exact .inl rfl
    · exact .inr he
  unfold Middleware.process value
  cases mw.kind with
  | filter isAsync =>
    dsimp only
    unfold Middleware.callPredicate
    rw [safe_bind]
    have hpredicate : ∀ (t : RunTrace α χ) r, assume t (.called (.await (.predicate index record)) r) →
        Gives r (f.predicate index record) := fun t r hr => hassume _ _ hr
    refine (safe_invoke_gives hpredicate).mono (fun keep _ _ hkeep => ?_) fun e _ _ he => ?_
    · change Except.map _ (f.predicate index record) = _
      rw [hkeep]
      rfl
    · refine he.imp_left fun he => ?_
      rw [he]
      rfl
  | batch =>
    dsimp only
    rw [safe_bind]
    have hbatch : ∀ (t : RunTrace α χ) r,
        assume t (.called (.await (.processBatch index [some record])) r) →
        Gives r (f.processBatch index record) := fun t r hr => hassume _ _ hr
    refine (safe_invoke_gives hbatch).mono (fun results _ _ hresults => ?_) fun e _ _ he => ?_
    · change Except.map _ (f.processBatch index record) = _
      rw [hresults]
      rfl
    · refine he.imp_left fun he => ?_
      rw [he]
      rfl
  | processBatch => exact .inl rfl
  | arrowBatch => exact rfl
  | arrowProcessBatch => exact rfl
  | map isAsync => exact hcall
  | perRecord => exact hcall

/-! ## The outcome of a piece of the chain -/

/-- The outcome that is reported for a walk in pieces: a fault of a middleware of a piece is reported
with the record the piece was entered with, once its `on_error` has returned; a fault of a middleware
behind which the walk is cut is reported with the record of the source. -/
def Reports (cut : ℕ → Bool) (raw : α) :
    Except (Fault α) (Option α) → MiddlewareChain.RecordOutcome α → Prop
  | .ok value, outcome => outcome = (value, none)
  | .error fault, outcome => fault.exception.isException = true ∧
    if cut fault.index then
      outcome = (none, some ⟨"buffered_middleware", raw, fault.middleware.name, fault.exception⟩)
    else f.onError fault.index fault.entered fault.exception = .ok () ∧
      outcome = (none, some ⟨"middleware", fault.entered, fault.middleware.name, fault.exception⟩)

/-- The exception leaves the walk: it is no `Exception`, or the `on_error` of the failing middleware
has raised it. -/
def Escapes (cut : ℕ → Bool) : Except (Fault α) (Option α) → Exc → Prop
  | .ok _, e => e.isException = false
  | .error fault, e => e.isException = false ∨
    (cut fault.index = false ∧ f.onError fault.index fault.entered fault.exception = .error e)

omit [DecidableEq α] in
theorem Escapes.of_interrupted {cut : ℕ → Bool} {walked : Except (Fault α) (Option α)} {e : Exc}
    (he : e.isException = false) : f.Escapes cut walked e := by
  cases walked with
  | ok value => exact he
  | error fault => exact .inl he

/-- As far as the assumption holds of its calls, the program ends as the walk says. -/
def Follows (assume : RunTrace α χ → Event (Call α χ) Call.Ret (Mark α χ) → Prop) (cut : ℕ → Bool)
    (raw : α) (walked : Except (Fault α) (Option α))
    (p : Delivery ℓ α χ (MiddlewareChain.RecordOutcome α)) : Prop :=
  ∀ w₀ w, p.Safe (.observing assume) (fun outcome _ _ => f.Reports cut raw walked outcome)
    (fun e _ _ => f.Escapes cut walked e) w₀ w

/-- A piece of the chain ends as the walk through it says. -/
theorem follows_processStages (hassume : ∀ t e, assume t e → f.Answers e) {cut : ℕ → Bool} (raw : α)
    {record : α} {stages : List (Middleware × ℕ)} (hcut : ∀ s ∈ stages, cut s.2 = false)
    (current : α) :
    f.Follows assume cut raw (f.walk cut record current stages)
      (MiddlewareChain.processStages record current stages : Delivery ℓ α χ _) := by
  induction stages generalizing current with
  | nil => exact fun _ _ => rfl
  | cons s stages ih =>
    obtain ⟨mw, index⟩ := s
    have hindex : cut index = false := hcut (mw, index) List.mem_cons_self
    intro w₀ w
    unfold MiddlewareChain.processStages
    rw [safe_bind, safe_attempt, walk_cons, hindex]
    refine (f.safe_process hassume mw index current).mono (fun value w₁ w' hvalue => ?_)
      fun exc w₁ w' hexc => ?_
    · rw [hvalue]
      cases value with
      | none => exact rfl
      | some next =>
        dsimp only
        have hrest : ∀ s ∈ stages, cut s.2 = false := fun s hs => hcut s (List.mem_cons_of_mem _ hs)
        unfold transferSuccessHooks
        rw [if_neg Bool.false_ne_true, safe_bind]
        split
        · exact ih hrest next _ _
        · exact safe_modify_of fun w'' _ _ => ih hrest next _ _
    · dsimp only
      by_cases hexception : exc.isException = true
      · -- the middleware failed, and its `on_error` is called
        have hfailed : f.value mw index current = .error exc := by
          rcases hexc with hfailed | hfalse
          · exact hfailed
          · rw [hexception] at hfalse
            cases hfalse
        have honError : ∀ (t : RunTrace α χ) r,
            assume t (.called (.await (.onError index record exc)) r) →
            Gives r (f.onError index record exc) := fun t r hr => hassume _ _ hr
        rw [if_pos hexception, safe_bind, hfailed]
        refine (safe_invoke_gives honError).mono (fun u _ _ hreturned => ?_) fun e _ _ he => ?_
        · refine ⟨hexception, ?_⟩
          rw [if_neg (by rw [hindex]; exact Bool.false_ne_true)]
          exact ⟨hreturned, rfl⟩
        · rcases he with he | he
          · exact .inr ⟨hindex, he⟩
          · exact .inl he
      · rw [if_neg hexception]
        exact Escapes.of_interrupted f (Bool.eq_false_iff.mpr hexception)

/-! ## Runs of the plain chain -/

/-- The environment answers the calls of user functions by these functions. -/
structure Plays (h : Environment α χ) : Prop where
  process : ∀ t index record, (h t (.process index record)).1 = f.process index record
  predicate : ∀ t index record, h t (.await (.predicate index record)) = f.predicate index record
  processBatch : ∀ t index record,
    h t (.await (.processBatch index [some record])) = f.processBatch index record
  onError : ∀ t index record exc,
    h t (.await (.onError index record exc)) = f.onError index record exc

/-- How the per-record path ends on a record for which the walk through the chain is given. -/
def plainOutcome (record : α) :
    Except (Fault α) (Option α) → Outcome Exc (MiddlewareChain.RecordOutcome α)
  | .ok value => .returned (value, none)
  | .error fault =>
    if fault.exception.isException then
      match f.onError fault.index record fault.exception with
      | .ok () => .returned
          (none, some ⟨"middleware", record, fault.middleware.name, fault.exception⟩)
      | .error e => .raised e
    else .raised fault.exception

variable {f} {h : Environment α χ}

theorem process_run (hf : f.Plays h) (mw : Middleware) (index : ℕ) (record : α)
    (w : RunWorld ℓ α χ) :
    ∃ w', (mw.process index record : Delivery ℓ α χ (Option α)).run h w =
      (match f.value mw index record with
        | .ok value => .returned value
        | .error e => .raised e, w') := by
  have hcall : ∃ w', (Middleware.callProcess index record : Delivery ℓ α χ (Option α)).run h w =
      (match f.process index record with
        | .ok value => .returned value
        | .error e => .raised e, w') := by
    simp only [Middleware.callProcess, registerSuccessHooks, run_bind, run_perform, run_modify,
      hf.process]
    cases f.process index record <;> exact ⟨_, rfl⟩
  unfold Middleware.process value
  cases mw.kind with
  | filter isAsync =>
    simp only [Middleware.callPredicate, invoke, run_bind, run_perform, hf.predicate]
    cases f.predicate index record <;> exact ⟨_, rfl⟩
  | batch =>
    simp only [invoke, run_bind, run_perform, hf.processBatch]
    cases f.processBatch index record <;> exact ⟨_, rfl⟩
  | processBatch => exact ⟨_, rfl⟩
  | arrowBatch => exact ⟨_, rfl⟩
  | arrowProcessBatch => exact ⟨_, rfl⟩
  | map isAsync => exact hcall
  | perRecord => exact hcall

/-- The per-record path ends as the walk says, however the walk is cut. -/
theorem processStages_run (hf : f.Plays h) (cut : ℕ → Bool) (entered record current : α)
    (stages : List (Middleware × ℕ)) (w : RunWorld ℓ α χ) :
    ∃ w', (MiddlewareChain.processStages record current stages).run h w =
      (f.plainOutcome record (f.walk cut entered current stages), w') := by
  induction stages generalizing entered current w with
  | nil => exact ⟨w, rfl⟩
  | cons s stages ih =>
    obtain ⟨mw, index⟩ := s
    obtain ⟨w₁, hprocess⟩ := process_run hf mw index current w
    rw [walk_cons]
    unfold MiddlewareChain.processStages
    rw [run_bind, run_attempt, hprocess]
    cases f.value mw index current with
    | error exc =>
      by_cases hexception : exc.isException = true
      · simp only [Outcome.caught, plainOutcome, hexception, if_true, invoke, run_bind, run_perform,
          hf.onError]
        cases f.onError index record exc <;> exact ⟨_, rfl⟩
      · simp only [Outcome.caught, plainOutcome, if_neg hexception]
        exact ⟨_, rfl⟩
    | ok value =>
      cases value with
      | none => exact ⟨w₁, rfl⟩
      | some next =>
        obtain ⟨w₂, htransfer⟩ : ∃ w₂, (transferSuccessHooks current next).run h w₁ =
            ((.returned () : Outcome Exc Unit), w₂) := by
          unfold transferSuccessHooks
          split
          · exact ⟨_, rfl⟩
          · exact ⟨_, rfl⟩
        simp only [Outcome.caught, run_bind, htransfer]
        exact ih _ next w₂

end UserFunctions

end AgoraEtl
