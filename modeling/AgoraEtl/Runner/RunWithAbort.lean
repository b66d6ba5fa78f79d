import AgoraEtl.Effect.Runs
import AgoraEtl.Failures

/-!
# A scheduled run under a lease

`ScheduledPipelineRunner._run_with_abort` starts the pipeline in a task of its own and waits for
that task or for the event that tells of a lost lease. When it is left, `_run_once` notifies the
observers, one of which releases the lease of the pipeline.

Three tasks take part: the scheduler task, the run task and the task that waits for the event. The
scheduler task runs from one suspension point to the next in one step; a cancellation that is
delivered to it is forwarded to the task that it awaits, or raised when it is resumed.
-/

namespace AgoraEtl.Runner

open Effect

variable {V : Type}

/-- How the run task ends. -/
inductive RunEnd (V : Type) where
  | returned (summary : V)
  | raised (exc : Exc)
  deriving DecidableEq

/-- How `_run_with_abort` is left. -/
inductive Result (V : Type) where
  | returned (summary : V)
  | raised (exc : Exc)
  | leaseLost
  deriving DecidableEq

/-- `run_task.result()`. -/
def RunEnd.result : RunEnd V → Result V
  | returned summary => .returned summary
  | raised exc => .raised exc

/-- The scheduler task: at `asyncio.wait`, at the await of the run task that it has cancelled, at
the await of the abort task in the `finally` block, or outside `_run_with_abort`. -/
inductive Scheduler (V : Type) where
  | waiting
  | awaitingRun
  | awaitingAbort (leaving : Result V)
  | left (result : Result V)
  deriving DecidableEq

/-- The task that waits for the abort event. -/
inductive AbortTask where
  | pending
  | cancelling
  | ended
  deriving DecidableEq

/-- The three tasks. `run` is `none` while the run task executes; `mustCancel` is a cancellation
that the scheduler task receives when it is resumed, and `delivered` remembers that one was
delivered to it inside `_run_with_abort`. -/
structure Tasks (V : Type) where
  scheduler : Scheduler V
  run : Option (RunEnd V)
  runCancelRequests : ℕ
  abortEvent : Bool
  abortTask : AbortTask
  mustCancel : Bool
  delivered : Bool
  deriving DecidableEq

namespace Tasks

/-- At `asyncio.wait`, with both tasks started. -/
def start : Tasks V := ⟨.waiting, none, 0, false, .pending, false, false⟩

/-- The `finally` block up to its suspension: the abort task is cancelled and awaited. -/
def enterFinally (s : Tasks V) (leaving : Result V) : Tasks V :=
  if s.abortTask = .ended then { s with scheduler := .left leaving }
  else { s with abortTask := .cancelling, scheduler := .awaitingAbort leaving }

/-- The scheduler task goes on from where it is suspended, if what it awaits is done. -/
def resume (s : Tasks V) : Option (Tasks V) :=
  match s.scheduler with
  | .waiting =>
    if s.mustCancel then some ({ s with mustCancel := false }.enterFinally (.raised .cancelled))
    else
      match s.run with
      | some runEnd => some (s.enterFinally runEnd.result)
      | none =>
        if s.abortTask = .ended then
          some { s with runCancelRequests := s.runCancelRequests + 1, scheduler := .awaitingRun }
        else none
  | .awaitingRun =>
    match s.run with
    | none => none
    | some runEnd =>
      -- `suppress(CancelledError, Exception)` lets a `KeyboardInterrupt` of the run through
      let leaving := match runEnd, s.mustCancel with
        | .raised .keyboardInterrupt, false => .raised .keyboardInterrupt
        | _, _ => .leaseLost
      some ({ s with mustCancel := false }.enterFinally leaving)
  | .awaitingAbort leaving =>
    -- a cancellation that is raised here is suppressed
    if s.abortTask = .ended then some { s with mustCancel := false, scheduler := .left leaving }
    else none
  | .left _ => none

/-- A cancellation is delivered to the scheduler task. -/
def cancelScheduler (s : Tasks V) : Tasks V :=
  match s.scheduler with
  | .waiting => { s with mustCancel := true, delivered := true }
  | .awaitingRun =>
    if s.run.isNone then { s with runCancelRequests := s.runCancelRequests + 1, delivered := true }
    else { s with mustCancel := true, delivered := true }
  | .awaitingAbort _ =>
    if s.abortTask = .ended then { s with mustCancel := true, delivered := true }
    else { s with abortTask := .cancelling, delivered := true }
  | .left _ => s

end Tasks

/-- What can happen next. -/
inductive Label (V : Type) where
  | runEnds (runEnd : RunEnd V)
  | leaseLost
  | abortTaskEnds
  | cancel
  | resume
  | release

/-- One step of the three tasks, in any order. The run task may end at any time and in any way; the
release observer runs after `_run_with_abort` is left. -/
inductive Step (s : Tasks V) : Label V → Tasks V → Prop where
  | runEnds (runEnd : RunEnd V) (running : s.run = none) :
      Step s (.runEnds runEnd) { s with run := some runEnd }
  | leaseLost : Step s .leaseLost { s with abortEvent := true }
  | abortTaskEnds (going : s.abortTask ≠ .ended)
      (woken : s.abortEvent = true ∨ s.abortTask = .cancelling) :
      Step s .abortTaskEnds { s with abortTask := .ended }
  | cancel : Step s .cancel s.cancelScheduler
  | resume {s' : Tasks V} (resumed : s.resume = some s') : Step s .resume s'
  | release {result : Result V} (left : s.scheduler = .left result) : Step s .release s

/-! ### What the lease needs -/

/-- What has to hold of `_run_with_abort` at every point: when it is left, the run has finished and
no cancellation was lost, and the lease is released only then. -/
structure LeaseSafe (s : Tasks V) : Prop where
  finished : ∀ result, s.scheduler = .left result → s.run ≠ none
  notLost : ∀ result, s.scheduler = .left result → s.delivered = true →
    result = .raised .cancelled
  released : ∀ s', Step s .release s' → s.run ≠ none

/-- The condition on a step: a cancellation does not arrive at the await of the aborted run, nor at
the await of the abort task unless a cancellation is leaving there already, and one that interrupts
`asyncio.wait` finds the run finished. -/
def Harmless (s : Tasks V) : Label V → Prop
  | .cancel =>
    match s.scheduler with
    | .waiting => True
    | .awaitingRun => False
    | .awaitingAbort leaving => leaving = .raised .cancelled
    | .left _ => True
  | .resume => s.scheduler = .waiting → s.mustCancel = true → s.run ≠ none
  | _ => True

/-- A harmless step. -/
def HarmlessStep (s : Tasks V) (label : Label V) (s' : Tasks V) : Prop :=
  Step s label s' ∧ Harmless s label

/-- A way of leaving that neither forgets the run nor a cancellation. -/
def Settled (s : Tasks V) (leaving : Result V) : Prop :=
  s.run ≠ none ∧ (s.delivered = true → leaving = .raised .cancelled)

/-- The invariant: what has been delivered is still to be raised, and `_run_with_abort` leaves
settled. -/
def Holds (s : Tasks V) : Prop :=
  match s.scheduler with
  | .waiting => s.delivered = s.mustCancel
  | .awaitingRun => s.delivered = false
  | .awaitingAbort leaving => Settled s leaving
  | .left result => Settled s result

theorem holds_start : Holds (Tasks.start : Tasks V) := rfl

theorem holds_enterFinally {s : Tasks V} {leaving : Result V} (h : Settled s leaving) :
    Holds (s.enterFinally leaving) := by
  unfold Tasks.enterFinally
  by_cases hended : s.abortTask = .ended
  · rw [if_pos hended]
    exact h
  · rw [if_neg hended]
    exact h

theorem holds_resume {s s' : Tasks V} (h : Holds s) (hresumed : s.resume = some s')
    (hharmless : Harmless s .resume) : Holds s' := by
  unfold Holds at h
  unfold Tasks.resume at hresumed
  cases hscheduler : s.scheduler with
  | waiting =>
    rw [hscheduler] at h hresumed
    dsimp only at h hresumed
    by_cases hcancel : s.mustCancel = true
    · rw [if_pos hcancel] at hresumed
      obtain rfl := Option.some.inj hresumed
      exact holds_enterFinally ⟨hharmless hscheduler hcancel, fun _ => rfl⟩
    · rw [if_neg hcancel] at hresumed
      have hdelivered : s.delivered = false := by
        rw [h]
        exact Bool.eq_false_iff.mpr hcancel
      cases hrun : s.run with
      | some runEnd =>
        rw [hrun] at hresumed
        obtain rfl := Option.some.inj hresumed
        refine holds_enterFinally ⟨by rw [hrun]; simp, fun htrue => ?_⟩
        rw [hdelivered] at htrue
        cases htrue
      | none =>
        rw [hrun] at hresumed
        dsimp only at hresumed
        by_cases hended : s.abortTask = .ended
        · rw [if_pos hended] at hresumed
          obtain rfl := Option.some.inj hresumed
          exact hdelivered
        · rw [if_neg hended] at hresumed
          cases hresumed
  | awaitingRun =>
    rw [hscheduler] at h hresumed
    cases hrun : s.run with
    | none =>
      rw [hrun] at hresumed
      cases hresumed
    | some runEnd =>
      rw [hrun] at hresumed
      obtain rfl := Option.some.inj hresumed
      refine holds_enterFinally ⟨by simp, fun htrue => ?_⟩
      rw [h] at htrue
      cases htrue
  | awaitingAbort leaving =>
    rw [hscheduler] at h hresumed
    dsimp only at hresumed
    by_cases hended : s.abortTask = .ended
    · rw [if_pos hended] at hresumed
      obtain rfl := Option.some.inj hresumed
      exact h
    · rw [if_neg hended] at hresumed
      cases hresumed
  | left result =>
    rw [hscheduler] at hresumed
    cases hresumed

theorem holds_cancel {s : Tasks V} (h : Holds s) (hharmless : Harmless s .cancel) :
    Holds s.cancelScheduler := by
  unfold Holds at h
  unfold Harmless at hharmless
  unfold Tasks.cancelScheduler
  cases hscheduler : s.scheduler with
  | waiting => exact rfl
  | awaitingRun =>
    rw [hscheduler] at hharmless
    exact hharmless.elim
  | awaitingAbort leaving =>
    rw [hscheduler] at h hharmless
    have hsettled : s.run ≠ none ∧ (true = true → leaving = .raised .cancelled) :=
      ⟨h.1, fun _ => hharmless⟩
    dsimp only
    unfold Holds
    by_cases hended : s.abortTask = .ended
    · rw [if_pos hended]
      exact hsettled
    · rw [if_neg hended]
      exact hsettled
  | left result =>
    unfold Holds
    rw [hscheduler] at h ⊢
    exact h

/-- The step lemma. -/
theorem Holds.step {s s' : Tasks V} {label : Label V} (h : Holds s)
    (hstep : HarmlessStep s label s') : Holds s' := by
  obtain ⟨hstep, hharmless⟩ := hstep
  have hkept : ∀ s' : Tasks V, s'.scheduler = s.scheduler → s'.mustCancel = s.mustCancel →
      s'.delivered = s.delivered → (s.run ≠ none → s'.run ≠ none) → Holds s' := by
    intro s' hscheduler hmust hdelivered hrun
    unfold Holds Settled at h ⊢
    rw [hscheduler, hmust, hdelivered]
    cases hcase : s.scheduler with
    | waiting =>
      rw [hcase] at h
      exact h
    | awaitingRun =>
      rw [hcase] at h
      exact h
    | awaitingAbort leaving =>
      rw [hcase] at h
      exact ⟨hrun h.1, h.2⟩
    | left result =>
      rw [hcase] at h
      exact ⟨hrun h.1, h.2⟩
  cases hstep with
  | runEnds runEnd hrunning => exact hkept _ rfl rfl rfl fun _ => by simp
  | leaseLost => exact hkept _ rfl rfl rfl id
  | abortTaskEnds hgoing hwoken => exact hkept _ rfl rfl rfl id
  | cancel => exact holds_cancel h hharmless
  | resume hresumed => exact holds_resume h hresumed hharmless
  | release hleft => exact h

theorem Holds.leaseSafe {s : Tasks V} (h : Holds s) : LeaseSafe s where
  finished := by
    intro result hleft
    unfold Holds at h
    rw [hleft] at h
    exact h.1
  notLost := by
    intro result hleft
    unfold Holds at h
    rw [hleft] at h
    exact h.2
  released := by
    intro s' hstep
    cases hstep with
    | release hleft =>
      unfold Holds at h
      rw [hleft] at h
      exact h.1

/-- **Lease safety.** In every run whose steps are harmless, for every interleaving of the end of
the run, the loss of the lease and cancellations of the scheduler task, `_run_with_abort` is left
only when the run has finished, no cancellation is lost, and the lease is released only after the
run. -/
theorem leaseSafe_of_harmless {labels : List (Label V)} {s : Tasks V}
    (hrun : Runs HarmlessStep (Tasks.start : Tasks V) labels s) : LeaseSafe s :=
  (hrun.invariant (I := fun _ s => Holds s) holds_start fun _ _ _ _ h hstep => h.step hstep).leaseSafe

/-! ### The end of the run -/

/-- The label is that of the end of the run task. -/
def Label.isRunEnd : Label V → Bool
  | .runEnds _ => true
  | _ => false

theorem run_enterFinally (s : Tasks V) (leaving : Result V) : (s.enterFinally leaving).run = s.run := by
  unfold Tasks.enterFinally
  split <;> rfl

theorem run_cancelScheduler (s : Tasks V) : s.cancelScheduler.run = s.run := by
  unfold Tasks.cancelScheduler
  split
  · rfl
  · split <;> rfl
  · split <;> rfl
  · rfl

theorem run_resume {s s' : Tasks V} (h : s.resume = some s') : s'.run = s.run := by
  unfold Tasks.resume at h
  split at h
  · split at h
    · obtain rfl := Option.some.inj h
      exact run_enterFinally _ _
    · split at h
      · obtain rfl := Option.some.inj h
        exact run_enterFinally _ _
      · obtain ⟨-, rfl⟩ := Option.ite_none_right_eq_some.mp h |>.imp_right Option.some.inj
        rfl
  · split at h
    · cases h
    · obtain rfl := Option.some.inj h
      exact run_enterFinally _ _
  · obtain ⟨-, rfl⟩ := Option.ite_none_right_eq_some.mp h |>.imp_right Option.some.inj
    rfl
  · cases h

/-- The run task has ended if its end is among the labels, and it ends only once. -/
theorem countP_isRunEnd {labels : List (Label V)} {s : Tasks V}
    (h : Runs Step (Tasks.start : Tasks V) labels s) :
    labels.countP Label.isRunEnd = s.run.isSome.toNat := by
  refine h.invariant (I := fun labels s => labels.countP Label.isRunEnd = s.run.isSome.toNat) rfl ?_
  intro labels s label s' ih hstep
  rw [List.countP_append, ih]
  cases hstep with
  | runEnds runEnd running => rw [running]; rfl
  | cancel => rw [run_cancelScheduler]; rfl
  | resume resumed => rw [run_resume resumed]; rfl
  | _ => rfl

/-- The lease is lost, the run is aborted and ends, and the scheduler task leaves. -/
theorem leaseSafe_aborted :
    LeaseSafe (⟨.left .leaseLost, some (.raised .cancelled), 1, true, .ended, false, false⟩ :
      Tasks ℕ) := by
  have hlost : Runs HarmlessStep (Tasks.start : Tasks ℕ) [.leaseLost] _ :=
    Runs.snoc .start ⟨.leaseLost, trivial⟩
  have hended := hlost.snoc ⟨.abortTaskEnds (by decide) (.inl rfl), trivial⟩
  have haborted := hended.snoc ⟨.resume rfl, nofun⟩
  have hcancelled := haborted.snoc ⟨.runEnds (.raised .cancelled) rfl, trivial⟩
  have hleft := hcancelled.snoc ⟨.resume rfl, nofun⟩
  exact leaseSafe_of_harmless hleft

/-- A cancellation that arrives at `asyncio.wait` leaves the run executing, and the release observer
releases its lease; one that arrives while the aborted run is awaited is lost. -/
theorem not_leaseSafe_cancelled :
    (∃ labels s s', Runs Step (Tasks.start : Tasks ℕ) labels s ∧
      s.scheduler = .left (.raised .cancelled) ∧ s.run = none ∧ Step s .release s') ∧
    ∃ labels s, Runs Step (Tasks.start : Tasks ℕ) labels s ∧ s.delivered = true ∧
      s.scheduler = .left .leaseLost := by
  constructor
  · have hcancelled : Runs Step (Tasks.start : Tasks ℕ) [.cancel] _ := Runs.snoc .start .cancel
    have hinterrupted := hcancelled.snoc (.resume rfl)
    have hended := hinterrupted.snoc (.abortTaskEnds (by decide) (.inr rfl))
    have hleft := hended.snoc (.resume rfl)
    exact ⟨_, _, _, hleft, rfl, rfl, .release rfl⟩
  · have hlost : Runs Step (Tasks.start : Tasks ℕ) [.leaseLost] _ := Runs.snoc .start .leaseLost
    have hended := hlost.snoc (.abortTaskEnds (by decide) (.inl rfl))
    have haborted := hended.snoc (.resume rfl)
    have hcancelled := haborted.snoc .cancel
    have hrunEnded := hcancelled.snoc (.runEnds (.raised .cancelled) rfl)
    have hleft := hrunEnded.snoc (.resume rfl)
    exact ⟨_, _, hleft, rfl, rfl⟩

end AgoraEtl.Runner
