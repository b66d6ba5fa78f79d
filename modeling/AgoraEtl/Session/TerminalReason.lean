import AgoraEtl.Session.Execute

/-!
# Why a run ends

`firstReason` reads the terminal reason of a run off its events: the first error that the startup,
the source or the lane raised.  `run_eq_firstReason` says that the run ends with this error, or with
the first error of its shutdown if there was none before, as long as the error handling and the
cleanup do not themselves raise in the place of it.

A middleware that fails to stop is not a reason: `stop_all` logs its error.
-/

namespace AgoraEtl.Session

open Effect Program

variable {α χ : Type}

namespace PipelineRuntimeSpec

variable (spec : PipelineRuntimeSpec α χ)

/-! ## Reasons -/

/-- The terminal reason for an error of the run; an interrupt from the keyboard is none. -/
def terminalReason (exc : RunError α χ) : Option (RunError α χ) :=
  match exc with
  | .exc .keyboardInterrupt => none
  | exc => some (spec.terminalError exc)

/-- The terminal reason that an event gives the run.  An error of the restore leaves the run as it
is. -/
def reasonOf : Event (Op α χ) Op.Ret Empty → Option (Option (RunError α χ))
  | .called (.await (.load _)) (.error exc) =>
    if spec.Tolerated exc then none else some (some exc)
  | .called (.await (.prepareResume _)) (.error exc) =>
    if spec.Tolerated exc then none else some (some exc)
  | .called (.await (.onStart _)) (.error exc) => some (spec.terminalReason exc)
  | .called (.await (.opening _)) (.error exc) => some (spec.terminalReason exc)
  | .called (.await .liveMetrics) (.error exc) =>
    if exc.isException then none else some (spec.terminalReason exc)
  | .called (.await .sourceOpen) (.error exc) => some (spec.terminalReason exc)
  | .called (.await .stream) (.error exc) => some (spec.terminalReason exc)
  | .called (.await .sourceClose) (.error exc) => some (spec.terminalReason exc)
  | _ => none

/-- The first terminal reason of a trace. -/
def firstReason (t : RunTrace α χ) : Option (Option (RunError α χ)) := t.findSome? spec.reasonOf

/-- The error that an event of the shutdown gives the run. -/
def shutdownErrorOf : Event (Op α χ) Op.Ret Empty → Option (RunError α χ)
  | .called (.await (.flush _)) (.error exc) => some exc
  | .called (.await (.validateFence .writerFlush)) (.error exc) => some exc
  | .called (.await (.validateFence .writerFlush)) (.ok false) => some (.exc (.fenceLost
      "Pipeline run lost its distributed lease fence before a side effect."))
  | .called (.await (.close .shutdown _)) (.error exc) => some exc
  | .called (.await .storeClose) (.error exc) => some exc
  | _ => none

/-- The first error of the shutdown in a trace. -/
def firstShutdownError (t : RunTrace α χ) : Option (RunError α χ) := t.findSome? shutdownErrorOf

/-- How a run with this trace and these metrics should end. -/
def ending (t : RunTrace α χ) (metrics : SessionMetrics χ) :
    Outcome (RunError α χ) (SessionMetrics χ) :=
  match spec.firstReason t, firstShutdownError t with
  | some (some exc), _ => .raised exc
  | some none, _ => .returned metrics
  | none, some exc => .raised exc
  | none, none => .returned metrics

/-- The step does not raise in the place of the reason: the routing to the dead-letter queue is
allowed to fail only where its failure is logged, the callback of a record error does not fail, and
no cleanup step raises anything but an exception. -/
def Calm (reason : Option (Option (RunError α χ))) : Event (Op α χ) Op.Ret Empty → Prop
  | .called (.await (.validateFence .dlqWrite)) (.ok active) =>
    active = true ∨ spec.delivery.dlqFailurePolicy = .logOnly
  | .called (.await (.validateFence .dlqWrite)) (.error exc) =>
    exc.isException = true ∧ spec.delivery.dlqFailurePolicy = .logOnly
  | .called (.await .currentCheckpoint) (.error exc) =>
    exc.isException = true ∧ spec.delivery.dlqFailurePolicy = .logOnly
  | .called (.await (.dlqWrite _)) (.error exc) =>
    exc.isException = true ∧ spec.delivery.dlqFailurePolicy = .logOnly
  | .called (.await .onHandled) (.error _) => False
  | .called (.await (.onStop _ _)) (.error exc) => exc.isException = true
  | .called (.await (.flush _)) (.error exc) => exc.isException = true
  | .called (.await (.validateFence .writerFlush)) (.error exc) => exc.isException = true
  | .called (.await (.close _ _)) (.error exc) => exc.isException = true
  | .called (.await .sourceClose) (.error exc) => exc.isException = true ∨ reason = none
  | .called (.await .storeClose) (.error exc) => exc.isException = true
  | .called (.await .joinLiveMetrics) (.error exc) => exc.isException = true
  | _ => True

/-! ## The contract and its rules -/

/-- Calm steps are assumed. -/
abbrev calmContract : Contract (Op α χ) Op.Ret Empty (PipelineRunState α χ) :=
  .alone (fun t => spec.Calm (spec.firstReason t)) (fun _ _ => True) False

/-- A world with the given state, reason and shutdown error. -/
structure Seen (s : PipelineRunState α χ) (reason : Option (Option (RunError α χ)))
    (shutdownError : Option (RunError α χ)) (w : RunWorld α χ) : Prop where
  state : w.state = s
  reason : spec.firstReason w.trace = reason
  shutdownError : firstShutdownError w.trace = shutdownError

variable {spec} {s : PipelineRunState α χ} {reason : Option (Option (RunError α χ))}
  {shutdownError : Option (RunError α χ)} {w₀ w : RunWorld α χ}

theorem Seen.called (h : spec.Seen s reason shutdownError w) (o : Op α χ) (r : o.Ret) :
    spec.Seen s (reason.or (spec.reasonOf (.called o r)))
      (shutdownError.or (shutdownErrorOf (.called o r))) (w.called o r) := by
  constructor
  · exact h.state
  · rw [World.called_trace, firstReason, List.findSome?_append, ← h.reason]
    simp [firstReason]
  · rw [World.called_trace, firstShutdownError, List.findSome?_append, ← h.shutdownError]
    simp [firstShutdownError]

/-- A step that gives no reason. -/
theorem Seen.sameReason (h : spec.Seen s (reason.or none) shutdownError w) :
    spec.Seen s reason shutdownError w := by
  rwa [Option.or_none] at h

/-- A step that gives neither a reason nor an error of the shutdown. -/
theorem Seen.unchanged (h : spec.Seen s (reason.or none) (shutdownError.or none) w) :
    spec.Seen s reason shutdownError w := by
  have h := h.sameReason
  rwa [Option.or_none] at h

/-- The rule for an awaited operation. -/
theorem calm_invoke (h : spec.Seen s reason shutdownError w) {a : Await α χ}
    {Q : a.Value → RunWorld α χ → RunWorld α χ → Prop}
    {E : RunError α χ → RunWorld α χ → RunWorld α χ → Prop}
    (hok : ∀ v w₀ w, spec.Calm reason (.called (.await a) (.ok v)) →
      spec.Seen s (reason.or (spec.reasonOf (.called (.await a) (.ok v))))
        (shutdownError.or (shutdownErrorOf (.called (.await a) (.ok v)))) w → Q v w₀ w)
    (herror : ∀ exc w₀ w, spec.Calm reason (.called (.await a) (.error exc)) →
      spec.Seen s (reason.or (spec.reasonOf (.called (.await a) (.error exc))))
        (shutdownError.or (shutdownErrorOf (.called (.await a) (.error exc)))) w → E exc w₀ w) :
    (invoke a).Safe spec.calmContract Q E w₀ w := by
  rw [invoke, safe_bind, safe_perform_alone]
  intro r hr
  rw [h.reason] at hr
  refine ⟨trivial, ?_⟩
  rw [safe_ofExcept]
  cases r with
  | ok v => exact hok v _ _ hr (h.called _ _)
  | error exc => exact herror exc _ _ hr (h.called _ _)

/-- The rule for a change of the state. -/
theorem calm_modify (h : spec.Seen s reason shutdownError w)
    (f : PipelineRunState α χ → PipelineRunState α χ)
    {Q : Unit → RunWorld α χ → RunWorld α χ → Prop}
    {E : RunError α χ → RunWorld α χ → RunWorld α χ → Prop}
    (hQ : ∀ w', spec.Seen (f s) reason shutdownError w' → Q () w₀ w') :
    (modify f : Program α χ Unit).Safe spec.calmContract Q E w₀ w := by
  rw [safe_modify, h.state]
  exact hQ _ ⟨rfl, h.reason, h.shutdownError⟩

/-! ## Middlewares and sinks -/

/-- Stopping middlewares neither raises nor gives a reason. -/
theorem calm_stopEach (site : Site) (indices : List ℕ)
    (h : spec.Seen s reason shutdownError w) :
    (stopEach site indices).Safe spec.calmContract
      (fun _ _ => spec.Seen s reason shutdownError) (fun _ _ _ => False) w₀ w := by
  induction indices generalizing w₀ w with
  | nil => exact h
  | cons index rest ih =>
    rw [stopEach, safe_bind]
    refine safe_catchException (calm_invoke (a := .onStop site index) h ?_ ?_)
    · intro v w₀ w _ hseen
      exact ih hseen.unchanged
    · intro exc w₀ w hcalm hseen
      have hexception : exc.isException = true := hcalm
      rw [if_pos hexception]
      exact ih hseen.unchanged

/-- What starting the middlewares raises is the reason. -/
theorem calm_startFrom (started indices : List ℕ) (h : spec.Seen s none none w) :
    (startFrom started indices).Safe spec.calmContract (fun _ _ => spec.Seen s none none)
      (fun exc _ => spec.Seen s (some (spec.terminalReason exc)) none) w₀ w := by
  induction indices generalizing started w₀ w with
  | nil => exact h
  | cons index rest ih =>
    rw [startFrom, safe_bind]
    refine safe_catchException (calm_invoke (a := .onStart index) h ?_ ?_)
    · exact fun v w₀ w _ hseen => ih _ hseen
    · intro exc w₀ w _ hseen
      by_cases hexception : exc.isException = true
      · rw [if_pos hexception, safe_bind]
        refine (calm_stopEach .rollback (index :: started) hseen).mono ?_ fun _ _ _ hf => hf.elim
        exact fun _ _ w hseen => hseen
      · rw [if_neg hexception]
        exact hseen

/-- Closing a sink of a failed startup neither raises nor gives a reason. -/
theorem calm_closeAfterOpenFailure (sink : Sink) (h : spec.Seen s reason shutdownError w) :
    (closeAfterOpenFailure sink : Program α χ Unit).Safe spec.calmContract
      (fun _ _ => spec.Seen s reason shutdownError) (fun _ _ _ => False) w₀ w := by
  refine safe_catchException ?_
  rw [safe_bind, safe_perform_alone]
  intro rolledBack _
  refine ⟨trivial, ?_⟩
  have hseen : spec.Seen s reason shutdownError (w.called (.openRolledBack sink) rolledBack) := by
    exact (h.called (.openRolledBack sink) rolledBack).unchanged
  cases rolledBack with
  | true => exact hseen
  | false =>
    refine calm_invoke (a := .close .rollback sink) hseen ?_ ?_
    · intro v w₀ w _ hseen
      exact hseen.unchanged
    · intro exc w₀ w hcalm hseen
      have hexception : exc.isException = true := hcalm
      rw [if_pos hexception]
      exact hseen.unchanged

/-- The handler of `open_runtime_sinks` raises the error it was given. -/
theorem calm_failOpen {dlqOpenAttempted : Bool} {exc : RunError α χ}
    (h : spec.Seen s (some (spec.terminalReason exc)) none w) :
    (failOpen dlqOpenAttempted exc).Safe spec.calmContract (fun _ _ _ => False)
      (fun exc _ => spec.Seen s (some (spec.terminalReason exc)) none) w₀ w := by
  unfold failOpen
  by_cases hexception : exc.isException = true
  · rw [if_pos hexception, safe_bind]
    have hlast : ∀ w₀ w : RunWorld α χ, spec.Seen s (some (spec.terminalReason exc)) none w →
        (closeAfterOpenFailure .writer >>= fun _ => raise exc :
          Program α χ (Bool × Bool)).Safe spec.calmContract (fun _ _ _ => False)
          (fun exc _ => spec.Seen s (some (spec.terminalReason exc)) none) w₀ w := by
      intro w₀ w hseen
      rw [safe_bind]
      refine (calm_closeAfterOpenFailure .writer hseen).mono ?_ fun _ _ _ hf => hf.elim
      exact fun _ _ w hseen => hseen
    cases dlqOpenAttempted with
    | false => exact hlast w₀ w h
    | true =>
      refine (calm_closeAfterOpenFailure .dlq h).mono ?_ fun _ _ _ hf => hf.elim
      exact fun _ w₀ w hseen => hlast w₀ w hseen
  · rw [if_neg hexception]
    exact h

/-- What opening the sinks raises is the reason. -/
theorem calm_openRuntimeSinks (h : spec.Seen s none none w) :
    spec.openRuntimeSinks.Safe spec.calmContract (fun _ _ => spec.Seen s none none)
      (fun exc _ => spec.Seen s (some (spec.terminalReason exc)) none) w₀ w := by
  rw [openRuntimeSinks, safe_bind, safe_attempt]
  refine calm_invoke (a := .opening .writer) h ?_ ?_
  · intro v w₀ w _ hseen
    have hopened : spec.Seen s none none w := hseen
    dsimp only
    by_cases hsink : spec.delivery.dlqSink = true
    · rw [if_pos hsink, safe_bind, safe_attempt]
      refine calm_invoke (a := .opening .dlq) hopened ?_ ?_
      · exact fun v w₀ w _ hseen => hseen
      · intro exc w₀ w _ hseen
        have hfailed : spec.Seen s (some (spec.terminalReason exc)) none w := hseen
        exact (calm_failOpen hfailed).mono (fun _ _ _ hf => hf.elim) fun _ _ _ hs => hs
    · rw [if_neg hsink]
      exact hopened
  · intro exc w₀ w _ hseen
    have hfailed : spec.Seen s (some (spec.terminalReason exc)) none w := hseen
    exact (calm_failOpen hfailed).mono (fun _ _ _ hf => hf.elim) fun _ _ _ hs => hs

/-! ## Restore, stream and body -/

/-- What the restore raises is the reason, as it is. -/
theorem calm_restoreCheckpoint (h : spec.Seen s none none w) :
    spec.restoreCheckpoint.Safe spec.calmContract
      (fun _ _ w' => ∃ metrics, spec.Seen { s with metrics := metrics } none none w')
      (fun exc _ w' => spec.firstReason w'.trace = some (some exc)) w₀ w := by
  unfold restoreCheckpoint
  by_cases hstore : spec.delivery.checkpointStore = false
  · rw [if_pos hstore]
    exact ⟨s.metrics, h⟩
  rw [if_neg hstore]
  by_cases hcapable : spec.checkpointCapable = false
  · rw [if_pos hcapable]
    exact ⟨s.metrics, h⟩
  rw [if_neg hcapable, safe_bind, safe_attempt, safe_bind]
  have hfailed : ∀ (exc : RunError α χ) (w₀ w : RunWorld α χ),
      spec.Seen s (if spec.Tolerated exc then none else some (some exc)) none w →
      (spec.settleRestore (.error exc)).Safe spec.calmContract
        (fun _ _ w' => ∃ metrics, spec.Seen { s with metrics := metrics } none none w')
        (fun exc _ w' => spec.firstReason w'.trace = some (some exc)) w₀ w := by
    intro exc w₀ w hseen
    rw [settleRestore]
    by_cases hcaught : exc.isIdentityMismatch = false ∧ exc.isException = true
    · rw [if_pos hcaught, safe_bind]
      refine calm_modify hseen _ fun w hseen => ?_
      by_cases hpolicy : spec.delivery.checkpointFailurePolicy = .logAndContinue
      · rw [if_pos ⟨hcaught.1, hcaught.2, hpolicy⟩] at hseen
        rw [if_pos hpolicy]
        exact ⟨_, hseen⟩
      · rw [if_neg fun htolerated => hpolicy htolerated.2.2] at hseen
        rw [if_neg hpolicy]
        exact hseen.reason
    · rw [if_neg fun htolerated => hcaught ⟨htolerated.1, htolerated.2.1⟩] at hseen
      rw [if_neg hcaught]
      exact hseen.reason
  refine calm_invoke (a := .load _) h ?_ ?_
  · intro checkpoint w₀ w _ hseen
    have hloaded : spec.Seen s none none w := hseen
    rw [safe_bind]
    refine calm_invoke (a := .prepareResume checkpoint) hloaded ?_ ?_
    · intro v w₀ w _ hseen
      cases checkpoint with
      | none => exact ⟨s.metrics, hseen⟩
      | some checkpoint =>
        have hmodified : (spec.settleRestore (.ok (some checkpoint))).Safe spec.calmContract
            (fun _ _ w' => ∃ metrics, spec.Seen { s with metrics := metrics } none none w')
            (fun exc _ w' => spec.firstReason w'.trace = some (some exc)) w₀ w :=
          calm_modify hseen _ fun w' hw' => ⟨_, hw'⟩
        exact hmodified
    · exact fun exc w₀ w _ hseen => hfailed exc w₀ w hseen
  · exact fun exc w₀ w _ hseen => hfailed exc w₀ w hseen

/-- What the stream raises is the reason, also when closing the source fails after it. -/
theorem calm_runStream (h : spec.Seen s none none w) :
    (runStream : Program α χ Unit).Safe spec.calmContract (fun _ _ => spec.Seen s none none)
      (fun exc _ => spec.Seen s (some (spec.terminalReason exc)) none) w₀ w := by
  rw [runStream, safe_bind]
  refine calm_invoke (a := .sourceOpen) h ?_ ?_
  · intro v w₀ w _ hseen
    have hopened : spec.Seen s none none w := hseen
    rw [safe_bind, safe_attempt]
    refine calm_invoke (a := .stream) hopened ?_ ?_
    · intro v w₀ w _ hseen
      have hstreamed : spec.Seen s none none w := hseen
      refine calm_invoke (a := .sourceClose) hstreamed ?_ ?_
      · exact fun v w₀ w _ hseen => hseen
      · exact fun exc w₀ w _ hseen => hseen
    · intro exc w₀ w _ hseen
      have hraised : spec.Seen s (some (spec.terminalReason exc)) none w := hseen
      rw [safe_bind]
      refine safe_catchException (calm_invoke (a := .sourceClose) hraised ?_ ?_)
      · exact fun v w₀ w _ hseen => hseen
      · intro exc' w₀ w hcalm hseen
        have hexception : exc'.isException = true := hcalm.resolve_right nofun
        rw [if_pos hexception]
        exact hseen
  · exact fun exc w₀ w _ hseen => hseen

/-- The reason is known, and nothing was done about it yet. -/
def Unhandled (spec : PipelineRuntimeSpec α χ) (reason : Option (Option (RunError α χ)))
    (w : RunWorld α χ) : Prop :=
  ∃ s, s.runError = none ∧ s.interrupted = false ∧ spec.Seen s reason none w

theorem Seen.unhandled (h : spec.Seen s reason none w) (hrunError : s.runError = none)
    (hinterrupted : s.interrupted = false) : Unhandled spec reason w :=
  ⟨s, hrunError, hinterrupted, h⟩

/-- What the body of `execute` raises is the reason. -/
theorem calm_runBody (hrunError : s.runError = none) (hinterrupted : s.interrupted = false)
    (h : spec.Seen s none none w) :
    spec.runBody.Safe spec.calmContract (fun _ _ => Unhandled spec none)
      (fun exc _ => Unhandled spec (some (spec.terminalReason exc))) w₀ w := by
  rw [runBody, safe_bind, startRuntime, safe_bind]
  refine (calm_startFrom _ _ h).mono ?_ fun exc _ w hseen => hseen.unhandled hrunError hinterrupted
  intro _ w₀ w hseen
  rw [safe_bind]
  refine calm_modify hseen _ fun w hseen => ?_
  rw [safe_bind]
  refine (calm_openRuntimeSinks hseen).mono ?_
    fun exc _ w hseen => hseen.unhandled hrunError hinterrupted
  intro opened w₀ w hseen
  refine calm_modify hseen _ fun w hseen => ?_
  rw [safe_bind]
  have hstream : ∀ (s : PipelineRunState α χ) (w₀ w : RunWorld α χ), spec.Seen s none none w →
      s.runError = none → s.interrupted = false →
      (runStream : Program α χ Unit).Safe spec.calmContract (fun _ _ => Unhandled spec none)
        (fun exc _ => Unhandled spec (some (spec.terminalReason exc))) w₀ w := by
    intro s w₀ w hseen hrunError hinterrupted
    refine (calm_runStream hseen).mono ?_ ?_
    · exact fun _ _ w hseen => hseen.unhandled hrunError hinterrupted
    · exact fun exc _ w hseen => hseen.unhandled hrunError hinterrupted
  unfold startLiveMetrics
  by_cases hcallback : spec.liveMetricsCallback = true
  · rw [if_pos hcallback, safe_bind]
    refine safe_catchException (calm_invoke (a := .liveMetrics) hseen ?_ ?_)
    · intro v w₀ w _ hseen
      have hcalled : spec.Seen _ none none w := hseen
      refine calm_modify hcalled _ fun w hseen => ?_
      exact hstream _ _ w hseen hrunError hinterrupted
    · intro exc w₀ w _ hseen
      have hcalled : spec.Seen _ (if exc.isException = true then none
        else some (spec.terminalReason exc)) none w := hseen
      by_cases hexception : exc.isException = true
      · rw [if_pos hexception] at hcalled
        rw [if_pos hexception, pure_eq_ret, safe_ret]
        refine calm_modify hcalled _ fun w hseen => ?_
        exact hstream _ _ w hseen hrunError hinterrupted
      · rw [if_neg hexception] at hcalled
        rw [if_neg hexception]
        exact hcalled.unhandled hrunError hinterrupted
  · rw [if_neg hcallback]
    exact hstream _ _ w hseen hrunError hinterrupted

/-! ## Error handling -/

/-- The state differs in its metrics at most. -/
def Counted (spec : PipelineRuntimeSpec α χ) (s : PipelineRunState α χ)
    (reason : Option (Option (RunError α χ))) (shutdownError : Option (RunError α χ))
    (w : RunWorld α χ) : Prop :=
  ∃ metrics, spec.Seen { s with metrics := metrics } reason shutdownError w

/-- The attempt of a dead-letter write raises only what is logged. -/
theorem calm_attemptDlqWrite (stage : String) (exc : Exc) (rec : Option α)
    (checkpoint : Option χ) (source : Option String) (h : spec.Seen s reason shutdownError w) :
    (do
      spec.assertRunFenceActive .dlqWrite
      let value ← checkpointOrCurrent checkpoint
      invoke (.dlqWrite
        { spec.delivery.dlqRecord stage exc rec rec none value none with
          source := source.getD spec.delivery.sourceName }) : Program α χ Unit).Safe
      spec.calmContract (fun _ _ => spec.Seen s reason shutdownError)
      (fun exc _ w' => exc.isException = true ∧ spec.delivery.dlqFailurePolicy = .logOnly ∧
        spec.Seen s reason shutdownError w') w₀ w := by
  have hwrite : ∀ (payload : DLQRecord α χ) (w₀ w : RunWorld α χ),
      spec.Seen s reason shutdownError w →
      (invoke (.dlqWrite payload) : Program α χ Unit).Safe spec.calmContract
        (fun _ _ => spec.Seen s reason shutdownError)
        (fun exc _ w' => exc.isException = true ∧ spec.delivery.dlqFailurePolicy = .logOnly ∧
          spec.Seen s reason shutdownError w') w₀ w := by
    intro payload w₀ w hseen
    refine calm_invoke (a := .dlqWrite payload) hseen ?_ ?_
    · intro v w₀ w _ hseen
      exact hseen.unchanged
    · intro exc w₀ w hcalm hseen
      exact ⟨hcalm.1, hcalm.2, hseen.unchanged⟩
  have hrest : ∀ w₀ w : RunWorld α χ, spec.Seen s reason shutdownError w →
      (checkpointOrCurrent checkpoint >>= fun value => invoke (.dlqWrite
        { spec.delivery.dlqRecord stage exc rec rec none value none with
          source := source.getD spec.delivery.sourceName }) : Program α χ Unit).Safe
        spec.calmContract (fun _ _ => spec.Seen s reason shutdownError)
        (fun exc _ w' => exc.isException = true ∧ spec.delivery.dlqFailurePolicy = .logOnly ∧
          spec.Seen s reason shutdownError w') w₀ w := by
    intro w₀ w hseen
    rw [safe_bind]
    cases checkpoint with
    | some checkpoint => exact hwrite _ w₀ w hseen
    | none =>
      refine calm_invoke (a := .currentCheckpoint) hseen ?_ ?_
      · intro v w₀ w _ hseen
        exact hwrite _ w₀ w hseen.unchanged
      · intro exc w₀ w hcalm hseen
        exact ⟨hcalm.1, hcalm.2, hseen.unchanged⟩
  rw [safe_bind, assertRunFenceActive]
  by_cases hfence : spec.delivery.runFence = true
  · rw [if_pos hfence, safe_bind]
    refine calm_invoke (a := .validateFence .dlqWrite) h ?_ ?_
    · intro active w₀ w hcalm hseen
      have hvalidated : spec.Seen s reason shutdownError w := by
        exact hseen.unchanged
      cases active with
      | true => exact hrest w₀ w hvalidated
      | false => exact ⟨rfl, hcalm.resolve_left nofun, hvalidated⟩
    · intro exc w₀ w hcalm hseen
      exact ⟨hcalm.1, hcalm.2, hseen.unchanged⟩
  · rw [if_neg hfence]
    exact hrest w₀ w h

/-- A dead-letter write for an error of the run does not raise. -/
theorem calm_writeToDlq (stage : String) (exc : Exc) (rec : Option α) (checkpoint : Option χ)
    (source : Option String) (h : spec.Seen s reason shutdownError w) :
    (spec.writeToDlq stage exc rec checkpoint source).Safe spec.calmContract
      (fun _ _ => Counted spec s reason shutdownError) (fun _ _ _ => False) w₀ w := by
  unfold writeToDlq
  split
  · exact ⟨s.metrics, h⟩
  · rw [safe_bind, safe_attempt]
    refine (calm_attemptDlqWrite stage exc rec checkpoint source h).mono ?_ ?_
    · exact fun _ _ w hseen => ⟨s.metrics, hseen⟩
    · rintro dlqExc w₀ w ⟨hexception, hpolicy, hseen⟩
      have hlogged : spec.delivery.dlqFailurePolicy ≠ .raise := by simp [hpolicy]
      dsimp only
      rw [if_pos hexception, if_neg hlogged, safe_bind]
      exact calm_modify hseen _ fun w hseen => ⟨_, hseen⟩

/-- Routing the error of the run does not raise. -/
theorem calm_routeRunError (exc : RunError α χ) (h : spec.Seen s reason shutdownError w) :
    (spec.routeRunError exc).Safe spec.calmContract
      (fun _ _ => Counted spec s reason shutdownError) (fun _ _ _ => False) w₀ w := by
  unfold routeRunError
  rw [safe_bind]
  refine calm_modify h _ fun w hseen => ?_
  rw [safe_bind, safe_read]
  split
  · exact ⟨_, hseen⟩
  · cases exc with
    | sourceRecord e =>
      rw [safe_bind]
      refine (calm_writeToDlq _ _ _ _ _ hseen).mono ?_ fun _ _ _ hf => hf
      rintro routed w₀ w ⟨metrics, hseen⟩
      split
      · refine calm_invoke (a := .onHandled) hseen ?_ ?_
        · intro v w₀ w _ hseen
          exact ⟨metrics, hseen.unchanged⟩
        · exact fun _ _ _ hcalm _ => hcalm.elim
      · exact ⟨metrics, hseen⟩
    | _ =>
      rw [safe_bind]
      refine (calm_writeToDlq _ _ _ _ _ hseen).mono ?_ fun _ _ _ hf => hf
      rintro routed w₀ w ⟨metrics, hseen⟩
      exact ⟨metrics, hseen⟩

/-- The reason that the state and the kept cancellation stand for. -/
def storedReason (spec : PipelineRuntimeSpec α χ) (cancellation : Option (RunError α χ))
    (s : PipelineRunState α χ) : Option (Option (RunError α χ)) :=
  match cancellation, s.runError, s.interrupted with
  | some exc, _, _ => some (some exc)
  | none, some exc, _ => some (some (spec.terminalError exc))
  | none, none, true => some none
  | none, none, false => none

/-- The reason is stored; a kept cancellation has interrupted the run. -/
def Stored (spec : PipelineRuntimeSpec α χ) (cancellation : Option (RunError α χ))
    (w : RunWorld α χ) : Prop :=
  ∃ s, (cancellation ≠ none → s.interrupted = true) ∧
    spec.Seen s (storedReason spec cancellation s) none w

/-- Handling an error of the run stores it as the reason. -/
theorem calm_handleRunError (exc : RunError α χ)
    (h : Unhandled spec (some (spec.terminalReason exc)) w) :
    (spec.handleRunError exc).Safe spec.calmContract (fun _ _ => Stored spec none)
      (fun _ _ _ => False) w₀ w := by
  obtain ⟨s, hrunError, hinterrupted, hseen⟩ := h
  -- the error is stored first, and what follows changes the metrics only
  have hstored : ∀ w, spec.Seen { s with runError := some exc }
      (some (some (spec.terminalError exc))) none w → Stored spec none w :=
    fun w hseen => ⟨_, nofun, hseen⟩
  have hrouted : ∀ w₀ w, spec.Seen { s with runError := some exc }
      (some (some (spec.terminalError exc))) none w →
      (spec.routeRunError exc).Safe spec.calmContract (fun _ _ => Stored spec none)
        (fun _ _ _ => False) w₀ w := by
    intro w₀ w hseen
    refine (calm_routeRunError exc hseen).mono ?_ fun _ _ _ hf => hf
    rintro _ _ w ⟨metrics, hseen⟩
    exact ⟨_, nofun, hseen⟩
  unfold handleRunError
  cases exc with
  | exc e =>
    cases e with
    | keyboardInterrupt =>
      have hreason : storedReason spec none { s with interrupted := true } = some none := by
        unfold storedReason
        rw [hrunError]
      refine calm_modify hseen _ fun w hseen => ⟨{ s with interrupted := true }, nofun, ?_⟩
      rw [hreason]
      exact hseen
    | fenceLost message =>
      rw [safe_bind]
      exact calm_modify hseen _ fun w hseen => hstored w hseen
    | recordDelivery original =>
      rw [safe_bind]
      exact calm_modify hseen _ fun w hseen => hstored w hseen
    | checkpointSave original =>
      rw [safe_bind]
      exact calm_modify hseen _ fun w hseen => hstored w hseen
    | _ =>
      rw [safe_bind]
      exact calm_modify hseen _ fun w hseen => hrouted _ w hseen
  | _ =>
    rw [safe_bind]
    exact calm_modify hseen _ fun w hseen => hrouted _ w hseen

/-- Handling the outcome of the body stores the reason and keeps a cancellation. -/
theorem calm_handleOutcome {outcome : Except (RunError α χ) Unit}
    (h : Unhandled spec (match outcome with
      | .ok () => none
      | .error exc => some (spec.terminalReason exc)) w) :
    (spec.handleOutcome outcome).Safe spec.calmContract
      (fun cancellation _ => Stored spec cancellation) (fun _ _ _ => False) w₀ w := by
  cases outcome with
  | ok v =>
    obtain ⟨s, hrunError, hinterrupted, hseen⟩ := h
    refine ⟨s, nofun, ?_⟩
    unfold storedReason
    rw [hrunError, hinterrupted]
    exact hseen
  | error exc =>
    have hhandled : (spec.handleRunError exc >>= fun _ => pure none :
        Program α χ (Option (RunError α χ))).Safe spec.calmContract
        (fun cancellation _ => Stored spec cancellation) (fun _ _ _ => False) w₀ w := by
      rw [safe_bind]
      exact (calm_handleRunError exc h).mono (fun _ _ _ hstored => hstored) fun _ _ _ hf => hf
    unfold handleOutcome
    cases exc with
    | exc e =>
      cases e with
      | cancelled =>
        obtain ⟨s, hrunError, hinterrupted, hseen⟩ := h
        rw [safe_bind]
        exact calm_modify hseen _ fun w hseen => ⟨_, fun _ => rfl, hseen⟩
      | _ => exact hhandled
    | _ => exact hhandled

/-! ## Shutdown -/

/-- What the step raises is an exception and an error of the shutdown. -/
def ShutdownStep (spec : PipelineRuntimeSpec α χ) (step : Program α χ Unit) : Prop :=
  ∀ s reason shutdownError w₀ w, spec.Seen s reason shutdownError w →
    step.Safe spec.calmContract (fun _ _ => spec.Seen s reason shutdownError)
      (fun exc _ w' => exc.isException = true ∧
        spec.Seen s reason (shutdownError.or (some exc)) w') w₀ w

/-- The first error that is kept is the first error of the shutdown. -/
theorem ShutdownStep.capture {step : Program α χ Unit} (hstep : ShutdownStep spec step)
    (h : spec.Seen s reason shutdownError w) :
    (capture step shutdownError).Safe spec.calmContract
      (fun kept _ => spec.Seen s reason kept) (fun _ _ _ => False) w₀ w := by
  refine safe_capture ((hstep _ _ _ _ _ h).mono (fun _ _ w hseen => hseen) ?_)
  rintro exc w₀ w ⟨hexception, hseen⟩
  rw [if_pos hexception]
  cases shutdownError with
  | none => exact hseen
  | some first => exact hseen

theorem shutdownStep_stopAll : ShutdownStep spec spec.stopAll := by
  intro s reason shutdownError w₀ w h
  exact (calm_stopEach _ _ h).mono (fun _ _ _ hseen => hseen) fun _ _ _ hf => hf.elim

theorem shutdownStep_flush (sink : Sink) : ShutdownStep spec (invoke (.flush sink)) := by
  intro s reason shutdownError w₀ w h
  refine calm_invoke (a := .flush sink) h ?_ ?_
  · intro v w₀ w _ hseen
    exact hseen.unchanged
  · intro exc w₀ w hcalm hseen
    exact ⟨hcalm, hseen.sameReason⟩

theorem shutdownStep_close (sink : Sink) : ShutdownStep spec (invoke (.close .shutdown sink)) := by
  intro s reason shutdownError w₀ w h
  refine calm_invoke (a := .close .shutdown sink) h ?_ ?_
  · intro v w₀ w _ hseen
    exact hseen.unchanged
  · intro exc w₀ w hcalm hseen
    exact ⟨hcalm, hseen.sameReason⟩

theorem shutdownStep_storeClose : ShutdownStep spec (invoke .storeClose) := by
  intro s reason shutdownError w₀ w h
  refine calm_invoke (a := .storeClose) h ?_ ?_
  · intro v w₀ w _ hseen
    exact hseen.unchanged
  · intro exc w₀ w hcalm hseen
    exact ⟨hcalm, hseen.sameReason⟩

theorem shutdownStep_flushWriter : ShutdownStep spec spec.flushWriter := by
  intro s reason shutdownError w₀ w h
  rw [flushWriter, safe_bind, assertRunFenceActive]
  by_cases hfence : spec.delivery.runFence = true
  · rw [if_pos hfence, safe_bind]
    refine calm_invoke (a := .validateFence .writerFlush) h ?_ ?_
    · intro active w₀ w _ hseen
      cases active with
      | true =>
        exact shutdownStep_flush .writer _ _ _ _ _
          hseen.unchanged
      | false => exact ⟨rfl, hseen.sameReason⟩
    · intro exc w₀ w hcalm hseen
      exact ⟨hcalm, hseen.sameReason⟩
  · rw [if_neg hfence]
    exact shutdownStep_flush .writer _ _ _ _ _ h

/-- Flushing and closing a sink keeps the first error. -/
theorem calm_flushAndClose (sink : Sink) {opened : Bool} {flush : Program α χ Unit}
    (hflush : ShutdownStep spec flush) (h : spec.Seen s reason shutdownError w) :
    (flushAndClose sink opened flush shutdownError).Safe spec.calmContract
      (fun kept _ => spec.Seen s reason kept) (fun _ _ _ => False) w₀ w := by
  unfold flushAndClose
  cases opened with
  | false => exact h
  | true =>
    rw [if_pos rfl, safe_bind]
    refine (hflush.capture h).mono ?_ fun _ _ _ hf => hf
    exact fun kept _ _ hseen => (shutdownStep_close sink).capture hseen

/-- The shutdown returns its first error unless the run has a reason. -/
theorem calm_shutdownRuntime (h : spec.Seen s reason none w) :
    spec.shutdownRuntime.Safe spec.calmContract
      (fun returned _ w' => ∃ first, spec.Seen s reason first w' ∧
        returned = if s.suppressShutdownExceptions then none else first)
      (fun _ _ _ => False) w₀ w := by
  rw [shutdownRuntime, safe_bind, safe_read, h.state, safe_bind]
  have hstop : (if s.middlewaresStarted then capture spec.stopAll none else pure none :
      Program α χ (Option (RunError α χ))).Safe spec.calmContract
      (fun kept _ => spec.Seen s reason kept) (fun _ _ _ => False) w₀ w := by
    split
    · exact shutdownStep_stopAll.capture h
    · exact h
  refine hstop.mono ?_ fun _ _ _ hf => hf
  intro stopped w₀ w hseen
  rw [safe_bind]
  refine (calm_flushAndClose .dlq (shutdownStep_flush .dlq) hseen).mono ?_ fun _ _ _ hf => hf
  intro dlqClosed w₀ w hseen
  rw [safe_bind]
  refine (calm_flushAndClose .writer shutdownStep_flushWriter hseen).mono ?_ fun _ _ _ hf => hf
  intro writerClosed w₀ w hseen
  rw [safe_bind]
  by_cases hstore : spec.delivery.checkpointStore = true
  · rw [if_pos hstore]
    refine (shutdownStep_storeClose.capture hseen).mono ?_ fun _ _ _ hf => hf
    exact fun first _ w hseen => ⟨first, hseen, rfl⟩
  · rw [if_neg hstore]
    exact ⟨writerClosed, hseen, rfl⟩

/-- The `finally` clause returns the first error of the shutdown unless the run has a reason. -/
theorem calm_finish (h : spec.Seen s reason none w) :
    spec.finish.Safe spec.calmContract
      (fun returned _ w' => ∃ first, spec.Seen s reason first w' ∧
        returned = if s.suppressShutdownExceptions then none else first)
      (fun _ _ _ => False) w₀ w := by
  rw [finish, safe_bind, safe_read, safe_bind]
  by_cases htask : w.state.liveMetricsTask = true
  · rw [if_pos htask]
    refine safe_catchException (calm_invoke (a := .joinLiveMetrics) h ?_ ?_)
    · intro v w₀ w _ hseen
      exact calm_shutdownRuntime hseen.unchanged
    · intro exc w₀ w hcalm hseen
      have hexception : exc.isException = true := hcalm
      rw [if_pos hexception]
      exact calm_shutdownRuntime hseen.unchanged
  · rw [if_neg htask]
    exact calm_shutdownRuntime h

/-! ## The run -/

/-- The end of the run agrees with its trace. -/
def EndsAs (spec : PipelineRuntimeSpec α χ)
    (outcome : Outcome (RunError α χ) (SessionMetrics χ)) (w : RunWorld α χ) : Prop :=
  outcome = spec.ending w.trace w.state.metrics

/-- With the reason stored, the run ends as its trace says. -/
theorem calm_conclude {cancellation : Option (RunError α χ)} (h : Stored spec cancellation w) :
    (spec.conclude (.ok cancellation)).Safe spec.calmContract
      (fun metrics _ => EndsAs spec (.returned metrics)) (fun exc _ => EndsAs spec (.raised exc))
      w₀ w := by
  obtain ⟨s, hcancellation, hseen⟩ := h
  rw [conclude, safe_bind]
  refine (calm_finish hseen).mono ?_ fun _ _ _ hf => hf.elim
  rintro returned w₀ w ⟨first, hseen, rfl⟩
  rw [safe_bind, ofExcept_ok, safe_ret, safe_bind, raiseTerminalError, safe_bind, safe_read,
    hseen.state]
  have hreason := hseen.reason
  have hfirst := hseen.shutdownError
  unfold storedReason at hreason
  unfold PipelineRunState.suppressShutdownExceptions
  cases cancellation with
  | some exc =>
    change EndsAs spec (.raised exc) w
    rw [EndsAs, ending, hreason]
  | none =>
    cases hrunError : s.runError with
    | some exc =>
      rw [hrunError] at hreason
      change EndsAs spec (.raised (spec.terminalError exc)) w
      rw [EndsAs, ending, hreason]
    | none =>
      rw [hrunError] at hreason
      cases hinterrupted : s.interrupted with
      | true =>
        rw [hinterrupted] at hreason
        change EndsAs spec (.returned w.state.metrics) w
        rw [EndsAs, ending, hreason]
      | false =>
        rw [hinterrupted] at hreason
        cases first with
        | some exc =>
          change EndsAs spec (.raised exc) w
          rw [EndsAs, ending, hreason, hfirst]
        | none =>
          change EndsAs spec (.returned w.state.metrics) w
          rw [EndsAs, ending, hreason, hfirst]

/-- The whole run ends as its trace says. -/
theorem calm_execute (spec : PipelineRuntimeSpec α χ) (w₀ : RunWorld α χ) :
    spec.execute.Safe spec.calmContract (fun metrics _ => EndsAs spec (.returned metrics))
      (fun exc _ => EndsAs spec (.raised exc)) w₀ ⟨{}, []⟩ := by
  have hstart : spec.Seen {} none none ⟨{}, []⟩ := ⟨rfl, rfl, rfl⟩
  rw [execute, safe_bind]
  refine (calm_restoreCheckpoint hstart).mono ?_ ?_
  · rintro _ w₀ w ⟨metrics, hseen⟩
    have hrest : ∀ (outcome : Except (RunError α χ) Unit) (w₀ w : RunWorld α χ),
        Unhandled spec (match outcome with
          | .ok () => none
          | .error exc => some (spec.terminalReason exc)) w →
        (attempt (spec.handleOutcome outcome) >>= spec.conclude).Safe spec.calmContract
          (fun metrics _ => EndsAs spec (.returned metrics))
          (fun exc _ => EndsAs spec (.raised exc)) w₀ w := by
      intro outcome w₀ w hunhandled
      rw [safe_bind, safe_attempt]
      refine (calm_handleOutcome hunhandled).mono ?_ fun _ _ _ hf => hf.elim
      exact fun _ _ _ hstored => calm_conclude hstored
    rw [safe_bind, safe_attempt]
    refine (calm_runBody rfl rfl hseen).mono ?_ ?_
    · exact fun _ w₀ w => hrest (.ok ()) w₀ w
    · exact fun exc w₀ w => hrest (.error exc) w₀ w
  · intro exc w₀ w hreason
    rw [EndsAs, ending, hreason]

end PipelineRuntimeSpec

open PipelineRuntimeSpec

/-- A run of calm steps ends with the first error of its startup, its source or its lane, or else
with the first error of its shutdown. -/
theorem run_eq_ending (spec : PipelineRuntimeSpec α χ) (h : Handler (Op α χ) Op.Ret Empty)
    (hcalm : Along (fun t => spec.Calm (spec.firstReason t)) [] (spec.run h).2.trace) :
    (spec.run h).1 = spec.ending (spec.run h).2.trace (spec.run h).2.state.metrics := by
  have hsafe := calm_execute spec ⟨{}, []⟩
  obtain ⟨t, ht, hpost⟩ := hsafe.run_alone h
  rw [List.nil_append] at ht
  have htrace : (spec.run h).2.trace = t := ht
  rw [htrace] at hcalm
  have hend := (hpost hcalm).2
  cases hrun : (spec.execute.run h ⟨{}, []⟩).1 with
  | returned metrics =>
    rw [hrun] at hend
    obtain ⟨_, hends⟩ := hend
    exact hrun.trans hends
  | raised exc =>
    rw [hrun] at hend
    obtain ⟨_, hends⟩ := hend
    exact hrun.trans hends
  | hung =>
    rw [hrun] at hend
    exact hend.elim

/-- The stream fails, and so do the dead-letter write, the source close, the stop of a middleware and
the flush of the writer: the error of the stream is raised. -/
theorem run_eq_ending_streamFailed :
    ((PipelineRuntimeSpec.standard 1).run (failing fun
      | .stream => some (.exc (.valueError "bad row"))
      | .dlqWrite _ => some (.exc (.runtimeError "dead-letter sink is full"))
      | .sourceClose => some (.exc (.runtimeError "close"))
      | .onStop _ _ => some (.exc (.runtimeError "stop"))
      | .flush _ => some (.exc (.runtimeError "flush"))
      | _ => none)).1 = .raised (.exc (.valueError "bad row")) := by
  refine (run_eq_ending _ _ ?_).trans rfl
  refine ⟨trivial, trivial, trivial, trivial, trivial, trivial, trivial, .inl rfl, ?_⟩
  -- the error is routed, then everything is shut down
  refine ⟨trivial, ⟨rfl, rfl⟩, ?_⟩
  exact ⟨rfl, rfl, trivial, rfl, trivial, trivial, trivial⟩

/-- The only error of the run is that a middleware fails to stop: the run returns. -/
theorem run_returns_stopFailed :
    (PipelineRuntimeSpec.standard 1).firstReason ((PipelineRuntimeSpec.standard 1).run (failing fun
      | .onStop _ _ => some (.exc (.runtimeError "stop"))
      | _ => none)).2.trace = none ∧
    .called (.await (.onStop .shutdown 0)) (.error (.exc (.runtimeError "stop"))) ∈
      ((PipelineRuntimeSpec.standard 1).run (failing fun
        | .onStop _ _ => some (.exc (.runtimeError "stop"))
        | _ => none)).2.trace ∧
    ((PipelineRuntimeSpec.standard 1).run (failing fun
      | .onStop _ _ => some (.exc (.runtimeError "stop"))
      | _ => none)).1 = .returned {} := by
  refine ⟨rfl, ?_, rfl⟩
  exact .tail _ (.tail _ (.tail _ (.tail _ (.tail _ (.tail _ (.tail _ (.tail _ (.head _))))))))

end AgoraEtl.Session
