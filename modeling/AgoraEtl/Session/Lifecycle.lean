import AgoraEtl.Effect.Footprint
import AgoraEtl.Session.Execute

/-!
# What a run starts and stops

`ledger` reads off the events of a run which middlewares were started and stopped, and what was
opened and closed.  `lifecycle_of_harmless` says that a run streams only after its whole startup
succeeded and leaves nothing open, as long as no step raises where the cleanup that is still to come
would be skipped.
-/

namespace AgoraEtl.Session

open Effect Program

variable {α χ : Type}

/-! ## The ledger of a run -/

/-- Whether the open of a component returned, and how often it was closed. -/
structure Component : Type where
  opened : Bool := false
  closes : ℕ := 0
  deriving DecidableEq

/-- The component is not left open: if its open returned, it was closed exactly once. -/
def Component.ClosedOnce (c : Component) : Prop := c.opened = true → c.closes = 1

instance (c : Component) : Decidable c.ClosedOnce := inferInstanceAs (Decidable (_ → _))

/-- What the events of a run have started and stopped, in order. -/
structure Ledger : Type where
  /-- `prepare_resume` returned, or the policy continues without it. -/
  restored : Bool := false
  /-- The middlewares whose `on_start` was called. -/
  called : List ℕ := []
  /-- The middlewares whose `on_start` returned. -/
  started : List ℕ := []
  /-- The middlewares whose `on_stop` was called. -/
  stopped : List ℕ := []
  writer : Component := {}
  dlq : Component := {}
  source : Component := {}
  storeCloses : ℕ := 0
  deriving DecidableEq

/-- An answer without an error. -/
def succeeded {ε γ : Type} : Except ε γ → Bool
  | .ok _ => true
  | .error _ => false

namespace Ledger

/-- The component of a sink. -/
def sink (l : Ledger) : Sink → Component
  | .writer => l.writer
  | .dlq => l.dlq

/-- The ledger with a changed sink. -/
def setSink (l : Ledger) (s : Sink) (c : Component) : Ledger :=
  match s with
  | .writer => { l with writer := c }
  | .dlq => { l with dlq := c }

end Ledger

namespace PipelineRuntimeSpec

variable (spec : PipelineRuntimeSpec α χ)

/-- The ledger after one more event. -/
def record (l : Ledger) : Event (Op α χ) Op.Ret Empty → Ledger
  | .called (.await (.load _)) (.error exc) => { l with restored := decide (spec.Tolerated exc) }
  | .called (.await (.prepareResume _)) (.ok ()) => { l with restored := true }
  | .called (.await (.prepareResume _)) (.error exc) =>
    { l with restored := decide (spec.Tolerated exc) }
  | .called (.await (.onStart index)) r =>
    { l with
      called := l.called ++ [index]
      started := if succeeded r then l.started ++ [index] else l.started }
  | .called (.await (.onStop _ index)) _ => { l with stopped := l.stopped ++ [index] }
  | .called (.await (.opening s)) r => l.setSink s { l.sink s with opened := succeeded r }
  | .called (.await (.close _ s)) _ => l.setSink s { l.sink s with closes := (l.sink s).closes + 1 }
  | .called (.await .sourceOpen) r => { l with source := { l.source with opened := succeeded r } }
  | .called (.await .sourceClose) _ =>
    { l with source := { l.source with closes := l.source.closes + 1 } }
  | .called (.await .storeClose) _ => { l with storeCloses := l.storeCloses + 1 }
  | _ => l

/-- The ledger of a trace. -/
def ledger (t : RunTrace α χ) : Ledger := t.foldl spec.record {}

/-- One more event is recorded in the ledger. -/
@[simp] theorem ledger_snoc (t : RunTrace α χ) (e : Event (Op α χ) Op.Ret Empty) :
    spec.ledger (t ++ [e]) = spec.record (spec.ledger t) e := by
  simp [ledger]

/-! ## What is asked of a run -/

/-- Every step of the startup has succeeded. -/
structure StartedUp (l : Ledger) : Prop where
  restored : spec.delivery.checkpointStore = true → spec.checkpointCapable = true →
    l.restored = true
  middlewares : l.started = List.range spec.middlewares
  writer : l.writer.opened = true
  dlq : spec.delivery.dlqSink = true → l.dlq.opened = true
  source : l.source.opened = true

/-- Nothing that was started or opened is left, and nothing was stopped or closed twice. -/
structure CleanedUp (l : Ledger) : Prop where
  stopped : l.stopped = l.called.reverse
  writer : l.writer.ClosedOnce
  dlq : l.dlq.ClosedOnce
  source : l.source.ClosedOnce
  store : spec.delivery.checkpointStore = true → l.storeCloses = 1

/-- The records are streamed only after the startup. -/
def StreamsStarted (l : Ledger) : Event (Op α χ) Op.Ret Empty → Prop
  | .called (.await .stream) _ => spec.StartedUp l
  | _ => True

/-- What has to hold of the events of a run. -/
def Lifecycle (t : RunTrace α χ) : Prop :=
  Along (fun t => spec.StreamsStarted (spec.ledger t)) [] t ∧ spec.CleanedUp (spec.ledger t)

/-- The step is harmless: either it raises nothing, or what it raises is caught before any cleanup
is skipped, or no cleanup is left. -/
def Harmless (l : Ledger) : Event (Op α χ) Op.Ret Empty → Prop
  | .called (.await (.load _)) (.error exc) => spec.Tolerated exc
  | .called (.await (.prepareResume _)) (.error exc) => spec.Tolerated exc
  | .called (.await (.onStart _)) (.error exc) => exc.isException = true
  | .called (.await (.onStop site index)) (.error exc) =>
    exc.isException = true ∨ index = 0 ∧ (site = .shutdown →
      spec.delivery.checkpointStore = false ∧ l.writer.ClosedOnce)
  | .called (.await (.opening .dlq)) (.error exc) => exc.isException = true
  | .called (.openRolledBack s) r => r = true → (l.sink s).opened = false
  | .called (.await (.flush _)) (.error exc) => exc.isException = true
  | .called (.await (.validateFence .writerFlush)) (.error exc) => exc.isException = true
  | .called (.await (.close site s)) (.error exc) =>
    exc.isException = true ∨
      s = .writer ∧ (site = .shutdown → spec.delivery.checkpointStore = false)
  | .called (.await .joinLiveMetrics) (.error exc) => exc.isException = true
  | _ => True

/-! ## The contract and its rules -/

/-- Harmless steps are assumed, the order of the stream is ensured. -/
abbrev contract : Contract (Op α χ) Op.Ret Empty (PipelineRunState α χ) :=
  .alone (fun t => spec.Harmless (spec.ledger t)) (fun t => spec.StreamsStarted (spec.ledger t))
    False

/-- A world with the given state and ledger. -/
structure At (s : PipelineRunState α χ) (l : Ledger) (w : RunWorld α χ) : Prop where
  state : w.state = s
  ledger : spec.ledger w.trace = l

variable {spec} {s : PipelineRunState α χ} {l : Ledger} {w₀ w : RunWorld α χ}

/-- A call is recorded where the session stands. -/
theorem At.called (h : spec.At s l w) (o : Op α χ) (r : o.Ret) :
    spec.At s (spec.record l (.called o r)) (w.called o r) := by
  refine ⟨h.state, ?_⟩
  rw [World.called_trace, ledger_snoc, h.ledger]

/-- The rule for an awaited operation. -/
theorem safe_invoke (h : spec.At s l w) {a : Await α χ}
    (hstream : ∀ r, spec.StreamsStarted l (.called (.await a) r))
    {Q : a.Value → RunWorld α χ → RunWorld α χ → Prop}
    {E : RunError α χ → RunWorld α χ → RunWorld α χ → Prop}
    (hok : ∀ v w₀ w, spec.At s (spec.record l (.called (.await a) (.ok v))) w → Q v w₀ w)
    (herror : ∀ exc w₀ w, spec.Harmless l (.called (.await a) (.error exc)) →
      spec.At s (spec.record l (.called (.await a) (.error exc))) w → E exc w₀ w) :
    (invoke a).Safe spec.contract Q E w₀ w := by
  rw [invoke, safe_bind, safe_perform_alone]
  intro r hr
  rw [h.ledger] at hr ⊢
  refine ⟨hstream r, ?_⟩
  rw [safe_ofExcept]
  cases r with
  | ok v => exact hok v _ _ (h.called _ _)
  | error exc => exact herror exc _ _ hr (h.called _ _)

/-- The rule for a change of the state. -/
theorem safe_modify_at (h : spec.At s l w) (f : PipelineRunState α χ → PipelineRunState α χ)
    {Q : Unit → RunWorld α χ → RunWorld α χ → Prop}
    {E : RunError α χ → RunWorld α χ → RunWorld α χ → Prop}
    (hQ : ∀ w', spec.At (f s) l w' → Q () w₀ w') :
    (modify f : Program α χ Unit).Safe spec.contract Q E w₀ w := by
  rw [safe_modify, h.state]
  exact hQ _ ⟨rfl, h.ledger⟩

/-! ## Middlewares -/

/-- Stopping the middlewares in reverse order calls `on_stop` of each of them; if this raises, no
cleanup is left. -/
theorem safe_stopEach (site : Site) (k : ℕ) (h : spec.At s l w) (w₀ : RunWorld α χ) :
    (stopEach site (List.range k).reverse).Safe spec.contract
      (fun _ _ => spec.At s { l with stopped := l.stopped ++ (List.range k).reverse })
      (fun _ _ w' => spec.At s { l with stopped := l.stopped ++ (List.range k).reverse } w' ∧
        (site = .shutdown → spec.delivery.checkpointStore = false ∧ l.writer.ClosedOnce))
      w₀ w := by
  induction k generalizing l w₀ w with
  | zero =>
    rw [List.range_zero, List.reverse_nil, List.append_nil]
    exact h
  | succ k ih =>
    have hlist : (List.range (k + 1)).reverse = k :: (List.range k).reverse := by
      rw [List.range_succ, List.reverse_append, List.reverse_singleton, List.singleton_append]
    rw [hlist, stopEach, safe_bind]
    -- whatever the stopped middleware raises, the others are stopped next
    have hnext : ∀ (r : Except (RunError α χ) Unit) (w₀ w : RunWorld α χ),
        spec.At s (spec.record l (.called (.await (.onStop site k)) r)) w →
        (stopEach site (List.range k).reverse).Safe spec.contract
          (fun _ _ => spec.At s
            { l with stopped := l.stopped ++ k :: (List.range k).reverse })
          (fun _ _ w' =>
            spec.At s { l with stopped := l.stopped ++ k :: (List.range k).reverse } w' ∧
              (site = .shutdown → spec.delivery.checkpointStore = false ∧ l.writer.ClosedOnce))
          w₀ w := by
      intro r w₀ w hat
      have hrest := ih hat w₀
      simpa only [record, List.append_assoc, List.singleton_append] using hrest
    refine safe_catchException (safe_invoke (a := .onStop site k) h (fun _ => trivial) ?_ ?_)
    · intro v w₀ w hat
      exact hnext (.ok v) w₀ w hat
    · intro exc w₀ w hharmless hat
      by_cases hexception : exc.isException = true
      · rw [if_pos hexception]
        exact hnext (.error exc) w₀ w hat
      · rw [if_neg hexception]
        obtain ⟨rfl, hsite⟩ := hharmless.resolve_left hexception
        exact ⟨hat, hsite⟩

/-- Starting the middlewares either starts all of them or leaves each one stopped whose `on_start`
was called. -/
theorem safe_startFrom (k m : ℕ) (h : spec.At s l w) (hcalled : l.called = List.range k)
    (hstarted : l.started = List.range k) (hstopped : l.stopped = []) (w₀ : RunWorld α χ) :
    (startFrom (List.range k).reverse (List.range' k m)).Safe spec.contract
      (fun _ _ => spec.At s
        { l with called := List.range (k + m), started := List.range (k + m) })
      (fun _ _ w' => ∃ called started, spec.At s
        { l with called := called, started := started, stopped := called.reverse } w')
      w₀ w := by
  induction m generalizing k l w₀ w with
  | zero =>
    cases l
    cases hcalled
    cases hstarted
    exact h
  | succ m ih =>
    have hrange : List.range (k + 1) = List.range k ++ [k] := List.range_succ
    have hreverse : k :: (List.range k).reverse = (List.range (k + 1)).reverse := by
      rw [hrange, List.reverse_append, List.reverse_singleton, List.singleton_append]
    rw [List.range'_succ, startFrom, safe_bind]
    refine safe_catchException (safe_invoke (a := .onStart k) h (fun _ => trivial) ?_ ?_)
    · intro v w₀ w hat
      rw [hreverse]
      have hrest := ih (k + 1) hat (by simp [record, hcalled, hrange])
        (by simp [record, succeeded, hstarted, hrange]) (by simp [record, hstopped]) w₀
      simpa only [record, Nat.add_assoc, Nat.add_comm 1 m] using hrest
    · intro exc w₀ w hharmless hat
      have hexception : exc.isException = true := hharmless
      rw [if_pos hexception, hreverse, safe_bind]
      -- the rollback stops the failing middleware and all that have started
      have hrollback := safe_stopEach .rollback (k + 1) hat w₀
      have hend : ∀ w', spec.At s
          { spec.record l (.called (.await (.onStart k)) (.error exc)) with
            stopped := (spec.record l (.called (.await (.onStart k)) (.error exc))).stopped ++
              (List.range (k + 1)).reverse } w' →
          ∃ called started, spec.At s
            { l with called := called, started := started, stopped := called.reverse } w' := by
        intro w' hw'
        refine ⟨List.range (k + 1), List.range k, ?_⟩
        simpa [record, succeeded, hcalled, hstarted, hstopped, hrange] using hw'
      exact hrollback.mono (fun _ _ w' hw' => hend w' hw') fun _ _ w' hw' => hend w' hw'.1

/-- `start_all` starts all middlewares, or leaves each one stopped whose `on_start` was called. -/
theorem safe_startAll (h : spec.At s l w) (hcalled : l.called = []) (hstarted : l.started = [])
    (hstopped : l.stopped = []) :
    spec.startAll.Safe spec.contract
      (fun _ _ => spec.At s { l with
        called := List.range spec.middlewares, started := List.range spec.middlewares })
      (fun _ _ w' => ∃ called started, spec.At s
        { l with called := called, started := started, stopped := called.reverse } w')
      w₀ w := by
  have hstart := safe_startFrom 0 spec.middlewares h hcalled hstarted hstopped w₀
  rwa [List.range_zero, List.reverse_nil, ← List.range_eq_range', Nat.zero_add] at hstart

/-! ## Sinks -/

/-- Closing a sink after a failed startup leaves it closed; only closing the writer can raise. -/
theorem safe_closeAfterOpenFailure (sink : Sink) (h : spec.At s l w)
    (hclosed : (l.sink sink).closes = 0) :
    (closeAfterOpenFailure sink : Program α χ Unit).Safe spec.contract
      (fun _ _ w' => ∃ c : Component, c.ClosedOnce ∧ spec.At s (l.setSink sink c) w')
      (fun _ _ w' => sink = .writer ∧
        ∃ c : Component, c.ClosedOnce ∧ spec.At s (l.setSink sink c) w')
      w₀ w := by
  refine safe_catchException ?_
  rw [safe_bind, safe_perform_alone]
  intro rolledBack hharmless
  rw [h.ledger] at hharmless
  refine ⟨trivial, ?_⟩
  have hat : spec.At s l (w.called (.openRolledBack sink) rolledBack) :=
    h.called (.openRolledBack sink) rolledBack
  cases rolledBack with
  | true =>
    -- the open did not return, so there is nothing to close
    have hopened : (l.sink sink).opened = false := hharmless rfl
    have hsame : l.setSink sink (l.sink sink) = l := by cases sink <;> rfl
    refine ⟨l.sink sink, fun hopen => absurd hopen (by simp [hopened]), ?_⟩
    rw [hsame]
    exact hat
  | false =>
    have hclosing : ∀ (r : Except (RunError α χ) Unit) w',
        spec.At s (spec.record l (.called (.await (.close .rollback sink)) r)) w' →
        ∃ c : Component, c.ClosedOnce ∧ spec.At s (l.setSink sink c) w' := by
      intro r w' hw'
      refine ⟨{ l.sink sink with closes := (l.sink sink).closes + 1 }, ?_, hw'⟩
      intro _
      simp [hclosed]
    refine safe_invoke (a := .close .rollback sink) hat (fun _ => trivial) ?_ ?_
    · intro v w₀ w' hw'
      exact hclosing (.ok v) w' hw'
    · intro exc w₀ w' hexc hw'
      by_cases hexception : exc.isException = true
      · rw [if_pos hexception]
        exact hclosing (.error exc) w' hw'
      · rw [if_neg hexception]
        exact ⟨(hexc.resolve_left hexception).1, hclosing (.error exc) w' hw'⟩

/-- Both sinks are closed, whatever else the ledger says. -/
def SinksClosed (spec : PipelineRuntimeSpec α χ) (s : PipelineRunState α χ) (l : Ledger)
    (w : RunWorld α χ) : Prop :=
  ∃ writer dlq : Component, writer.ClosedOnce ∧ dlq.ClosedOnce ∧
    spec.At s { l with writer := writer, dlq := dlq } w

/-- The handler of `open_runtime_sinks` raises with both sinks closed. -/
theorem safe_failOpen {dlqOpenAttempted : Bool} {exc : RunError α χ} (h : spec.At s l w)
    (hwriter : l.writer.closes = 0) (hdlq : l.dlq.closes = 0)
    (hattempted : dlqOpenAttempted = false → l.dlq.ClosedOnce)
    (hexc : exc.isException = false → l.writer.ClosedOnce ∧ l.dlq.ClosedOnce) :
    (failOpen dlqOpenAttempted exc).Safe spec.contract (fun _ _ _ => False)
      (fun _ _ => SinksClosed spec s l) w₀ w := by
  unfold failOpen
  by_cases hexception : exc.isException = true
  · rw [if_pos hexception, safe_bind]
    -- the writer is closed last
    have hlast : ∀ {dlq : Component} {w₀ w' : RunWorld α χ}, dlq.ClosedOnce →
        spec.At s { l with dlq := dlq } w' →
        (closeAfterOpenFailure .writer >>= fun _ => raise exc :
          Program α χ (Bool × Bool)).Safe spec.contract (fun _ _ _ => False)
          (fun _ _ => SinksClosed spec s l) w₀ w' := by
      intro dlq w₀ w' hc hat
      rw [safe_bind]
      refine (safe_closeAfterOpenFailure .writer hat hwriter).mono ?_ ?_
      · rintro _ _ w' ⟨c, hc', hw'⟩
        exact ⟨c, dlq, hc', hc, hw'⟩
      · rintro _ _ w' ⟨-, c, hc', hw'⟩
        exact ⟨c, dlq, hc', hc, hw'⟩
    cases dlqOpenAttempted with
    | false => exact hlast (hattempted rfl) h
    | true =>
      refine (safe_closeAfterOpenFailure .dlq h hdlq).mono ?_ ?_
      · rintro _ _ w' ⟨c, hc, hw'⟩
        exact hlast hc hw'
      · rintro _ _ w' ⟨hsink, -⟩
        cases hsink
  · rw [if_neg hexception]
    have hclosed := hexc (by simpa using hexception)
    exact ⟨l.writer, l.dlq, hclosed.1, hclosed.2, h⟩

/-- `open_runtime_sinks` opens all configured sinks or leaves none open. -/
theorem safe_openRuntimeSinks (h : spec.At s l w) (hwriter : l.writer = {}) (hdlq : l.dlq = {}) :
    spec.openRuntimeSinks.Safe spec.contract
      (fun opened _ w' => opened = (true, spec.delivery.dlqSink) ∧
        spec.At s { l with writer := ⟨true, 0⟩, dlq := ⟨spec.delivery.dlqSink, 0⟩ } w')
      (fun _ _ => SinksClosed spec s l) w₀ w := by
  rw [openRuntimeSinks, safe_bind, safe_attempt]
  refine safe_invoke (a := .opening .writer) h (fun _ => trivial) ?_ ?_
  · intro v w₀ w hat
    by_cases hsink : spec.delivery.dlqSink = true
    · simp only [hsink, if_true, safe_bind, safe_attempt]
      refine safe_invoke (a := .opening .dlq) hat (fun _ => trivial) ?_ ?_
      · intro v w₀ w hat
        refine ⟨rfl, ?_⟩
        simpa [record, Ledger.setSink, Ledger.sink, succeeded, hwriter, hdlq] using hat
      · intro exc w₀ w hexc hat
        have hraised : exc.isException = true := hexc
        refine (safe_failOpen hat ?_ ?_ ?_ ?_).mono (fun _ _ _ hf => hf.elim) ?_
        · simp [record, Ledger.setSink, Ledger.sink, hwriter]
        · simp [record, Ledger.setSink, Ledger.sink, hdlq]
        · simp
        · intro hnot
          rw [hraised] at hnot
          cases hnot
        · rintro _ _ w' ⟨writer, dlq, hw, hd, hw'⟩
          exact ⟨writer, dlq, hw, hd, hw'⟩
    · have hnone : spec.delivery.dlqSink = false := by simpa using hsink
      rw [if_neg hsink, hnone, ← hdlq]
      refine ⟨rfl, ?_⟩
      simpa [record, Ledger.setSink, Ledger.sink, succeeded, hwriter] using hat
  · intro exc w₀ w hexc hat
    refine (safe_failOpen hat ?_ ?_ ?_ ?_).mono (fun _ _ _ hf => hf.elim) ?_
    · simp [record, Ledger.setSink, Ledger.sink, hwriter]
    · simp [record, Ledger.setSink, hdlq]
    · simp [record, Ledger.setSink, hdlq, Component.ClosedOnce]
    · simp [record, Ledger.setSink, Ledger.sink, succeeded, hwriter, hdlq, Component.ClosedOnce]
    · rintro _ _ w' ⟨writer, dlq, hw, hd, hw'⟩
      exact ⟨writer, dlq, hw, hd, hw'⟩

/-! ## Restore, stream and body -/

/-- The restore has succeeded or was tolerated; only the metrics have changed. -/
def Restored (spec : PipelineRuntimeSpec α χ) (s : PipelineRunState α χ) (l : Ledger)
    (w : RunWorld α χ) : Prop :=
  ∃ metrics restored, (spec.delivery.checkpointStore = true → spec.checkpointCapable = true →
    restored = true) ∧ spec.At { s with metrics := metrics } { l with restored := restored } w

/-- What comes after the load raises nothing unless the error is not tolerated. -/
theorem safe_settleRestore {loaded : Except (RunError α χ) (Option χ)}
    (h : spec.At s { l with restored := true } w)
    (htolerated : ∀ exc, loaded = .error exc → spec.Tolerated exc) :
    (spec.settleRestore loaded).Safe spec.contract (fun _ _ => Restored spec s l)
      (fun _ _ _ => False) w₀ w := by
  cases loaded with
  | ok checkpoint =>
    cases checkpoint with
    | none => exact ⟨s.metrics, true, fun _ _ => rfl, h⟩
    | some checkpoint => exact safe_modify_at h _ fun w' hw' => ⟨_, true, fun _ _ => rfl, hw'⟩
  | error exc =>
    obtain ⟨hidentity, hexception, hpolicy⟩ := htolerated exc rfl
    rw [settleRestore, if_pos ⟨hidentity, hexception⟩, if_pos hpolicy, safe_bind]
    exact safe_modify_at h _ fun w' hw' => ⟨_, true, fun _ _ => rfl, hw'⟩

/-- `restore_checkpoint` raises only what is not harmless. -/
theorem safe_restoreCheckpoint (h : spec.At s l w) :
    spec.restoreCheckpoint.Safe spec.contract (fun _ _ => Restored spec s l)
      (fun _ _ _ => False) w₀ w := by
  unfold restoreCheckpoint
  by_cases hstore : spec.delivery.checkpointStore = false
  · rw [if_pos hstore]
    exact ⟨s.metrics, l.restored, fun hyes => absurd hyes (by simp [hstore]), h⟩
  rw [if_neg hstore]
  by_cases hcapable : spec.checkpointCapable = false
  · rw [if_pos hcapable]
    exact ⟨s.metrics, l.restored, fun _ hyes => absurd hyes (by simp [hcapable]), h⟩
  rw [if_neg hcapable, safe_bind, safe_attempt, safe_bind]
  have hfailed : ∀ (exc : RunError α χ) (w₀ w : RunWorld α χ), spec.Tolerated exc →
      spec.At s { l with restored := decide (spec.Tolerated exc) } w →
      (spec.settleRestore (.error exc)).Safe spec.contract (fun _ _ => Restored spec s l)
        (fun _ _ _ => False) w₀ w := by
    intro exc w₀ w hexc hat
    rw [decide_eq_true hexc] at hat
    exact safe_settleRestore hat fun exc' heq => by cases heq; exact hexc
  refine safe_invoke (a := .load _) h (fun _ => trivial) ?_ ?_
  · intro checkpoint w₀ w hat
    rw [safe_bind]
    refine safe_invoke (a := .prepareResume checkpoint) hat (fun _ => trivial) ?_ ?_
    · intro v w₀ w hat
      exact safe_settleRestore hat nofun
    · intro exc w₀ w hexc hat
      exact hfailed exc w₀ w hexc hat
  · intro exc w₀ w hexc hat
    exact hfailed exc w₀ w hexc hat

/-- `_run_stream` leaves the source closed if it was opened. -/
theorem safe_runStream (h : spec.At s l w) (hsource : l.source = {})
    (hready : spec.StartedUp { l with source := ⟨true, 0⟩ }) :
    (runStream : Program α χ Unit).Safe spec.contract
      (fun _ _ w' => ∃ source : Component, source.ClosedOnce ∧
        spec.At s { l with source := source } w')
      (fun _ _ w' => ∃ source : Component, source.ClosedOnce ∧
        spec.At s { l with source := source } w')
      w₀ w := by
  rw [runStream, safe_bind]
  refine safe_invoke (a := .sourceOpen) h (fun _ => trivial) ?_ ?_
  · intro v w₀ w hat
    have hopened : spec.At s { l with source := ⟨true, 0⟩ } w := by
      simpa [record, succeeded, hsource] using hat
    -- however the source is closed, it has been closed once
    have hclosing : ∀ (r : Except (RunError α χ) Unit) (w' : RunWorld α χ),
        spec.At s (spec.record { l with source := ⟨true, 0⟩ }
          (.called (.await .sourceClose) r)) w' →
        ∃ source : Component, source.ClosedOnce ∧ spec.At s { l with source := source } w' :=
      fun _ w' hw' => ⟨⟨true, 1⟩, fun _ => rfl, hw'⟩
    rw [safe_bind, safe_attempt]
    refine safe_invoke (a := .stream) hopened (fun _ => hready) ?_ ?_
    · intro v w₀ w hat
      refine safe_invoke (a := .sourceClose) hat (fun _ => trivial) ?_ ?_
      · intro v w₀ w' hw'
        exact hclosing (.ok v) w' hw'
      · intro exc w₀ w' _ hw'
        exact hclosing (.error exc) w' hw'
    · intro exc w₀ w _ hat
      rw [safe_bind]
      refine safe_catchException (safe_invoke (a := .sourceClose) hat (fun _ => trivial) ?_ ?_)
      · intro v w₀ w' hw'
        exact hclosing (.ok v) w' hw'
      · intro exc' w₀ w' _ hw'
        by_cases hexception : exc'.isException = true
        · rw [if_pos hexception]
          exact hclosing (.error exc') w' hw'
        · rw [if_neg hexception]
          exact hclosing (.error exc') w' hw'
  · intro exc w₀ w _ hat
    exact ⟨{ l.source with opened := false }, nofun, hat⟩

/-- What the shutdown finds: the flags of the state tell what is still to be cleaned up. -/
structure Ready (spec : PipelineRuntimeSpec α χ) (s : PipelineRunState α χ) (l : Ledger) : Prop where
  running : s.middlewaresStarted = true → l.called = List.range spec.middlewares ∧ l.stopped = []
  stopped : s.middlewaresStarted = false → l.stopped = l.called.reverse
  writerOpen : s.writerOpened = true → l.writer = ⟨true, 0⟩
  writerClosed : s.writerOpened = false → l.writer.ClosedOnce ∧ s.dlqOpened = false
  dlqOpen : s.dlqOpened = true → l.dlq = ⟨true, 0⟩ ∧ spec.delivery.dlqSink = true
  dlqClosed : s.dlqOpened = false → l.dlq.ClosedOnce
  source : l.source.ClosedOnce
  store : l.storeCloses = 0

/-- The state and the ledger of a world are ready for the shutdown. -/
def ReadyAt (spec : PipelineRuntimeSpec α χ) (w : RunWorld α χ) : Prop :=
  Ready spec w.state (spec.ledger w.trace)

/-- Where a session is ready it can go on. -/
theorem At.readyAt (h : spec.At s l w) (hready : Ready spec s l) : ReadyAt spec w := by
  unfold ReadyAt
  rw [h.state, h.ledger]
  exact hready

/-- The state once the sinks are open. -/
def openedState (spec : PipelineRuntimeSpec α χ) (metrics : SessionMetrics χ)
    (liveMetricsTask : Bool) : PipelineRunState α χ :=
  { middlewaresStarted := true, writerOpened := true, dlqOpened := spec.delivery.dlqSink,
    liveMetricsTask := liveMetricsTask, metrics := metrics }

/-- The ledger once the sinks are open. -/
def openedLedger (spec : PipelineRuntimeSpec α χ) (restored : Bool) (source : Component) : Ledger :=
  { restored := restored, called := List.range spec.middlewares,
    started := List.range spec.middlewares, writer := ⟨true, 0⟩,
    dlq := ⟨spec.delivery.dlqSink, 0⟩, source := source }

/-- Once the sinks are open the shutdown finds them open, and the source closed. -/
theorem ready_opened (metrics : SessionMetrics χ) (liveMetricsTask restored : Bool)
    {source : Component} (hsource : source.ClosedOnce) :
    Ready spec (openedState spec metrics liveMetricsTask) (openedLedger spec restored source) := by
  constructor
  · exact fun _ => ⟨rfl, rfl⟩
  · exact nofun
  · exact fun _ => rfl
  · exact nofun
  · intro hopen
    have hsink : spec.delivery.dlqSink = true := hopen
    exact ⟨by rw [openedLedger, hsink], hsink⟩
  · intro hclosed
    have hsink : spec.delivery.dlqSink = false := hclosed
    simp [openedLedger, Component.ClosedOnce, hsink]
  · exact hsource
  · rfl

/-- Whatever happens to the source, it is closed again after the stream. -/
theorem safe_runStream_opened {metrics : SessionMetrics χ} {restored liveMetricsTask : Bool}
    (hrestored : spec.delivery.checkpointStore = true → spec.checkpointCapable = true →
      restored = true)
    (h : spec.At (openedState spec metrics liveMetricsTask) (openedLedger spec restored {}) w) :
    (runStream : Program α χ Unit).Safe spec.contract (fun _ _ => ReadyAt spec)
      (fun _ _ => ReadyAt spec) w₀ w := by
  refine (safe_runStream h rfl ⟨hrestored, rfl, rfl, fun hsink => hsink, rfl⟩).mono ?_ ?_
  · rintro _ _ w ⟨source, hsource, hat⟩
    exact hat.readyAt (ready_opened metrics liveMetricsTask restored hsource)
  · rintro _ _ w ⟨source, hsource, hat⟩
    exact hat.readyAt (ready_opened metrics liveMetricsTask restored hsource)

/-- The body of `execute` leaves everything ready for the shutdown, however it ends. -/
theorem safe_runBody {metrics : SessionMetrics χ} {restored : Bool}
    (hrestored : spec.delivery.checkpointStore = true → spec.checkpointCapable = true →
      restored = true)
    (h : spec.At { metrics := metrics } { restored := restored } w) :
    spec.runBody.Safe spec.contract (fun _ _ => ReadyAt spec) (fun _ _ => ReadyAt spec) w₀ w := by
  rw [runBody, safe_bind, startRuntime, safe_bind]
  refine (safe_startAll h rfl rfl rfl).mono ?_ ?_
  · intro _ w₀ w hat
    rw [safe_bind]
    refine safe_modify_at hat _ fun w hat => ?_
    rw [safe_bind]
    refine (safe_openRuntimeSinks hat rfl rfl).mono ?_ ?_
    · rintro opened w₀ w ⟨rfl, hat⟩
      refine safe_modify_at hat _ fun w hat => ?_
      rw [safe_bind]
      unfold startLiveMetrics
      by_cases hcallback : spec.liveMetricsCallback = true
      · rw [if_pos hcallback, safe_bind]
        refine safe_catchException (safe_invoke (a := .liveMetrics) hat (fun _ => trivial) ?_ ?_)
        · intro v w₀ w hat
          refine safe_modify_at hat _ fun w hat => ?_
          exact safe_runStream_opened hrestored hat
        · intro exc w₀ w _ hat
          by_cases hexception : exc.isException = true
          · rw [if_pos hexception, pure_eq_ret, safe_ret]
            refine safe_modify_at hat _ fun w hat => ?_
            exact safe_runStream_opened hrestored hat
          · rw [if_neg hexception]
            exact hat.readyAt (ready_opened metrics false restored nofun)
      · rw [if_neg hcallback]
        exact safe_runStream_opened hrestored hat
    · rintro _ _ w ⟨writer, dlq, hwriter, hdlq, hat⟩
      refine hat.readyAt ⟨fun _ => ⟨rfl, rfl⟩, nofun, nofun, fun _ => ⟨hwriter, rfl⟩, nofun,
        fun _ => hdlq, nofun, rfl⟩
  · rintro _ _ w ⟨called, started, hat⟩
    exact hat.readyAt ⟨nofun, fun _ => rfl, nofun, fun _ => ⟨nofun, rfl⟩, nofun, fun _ => nofun,
      nofun, rfl⟩

/-! ## Error handling -/

/-- The calls by which an error is routed to the dead-letter queue. -/
def Routes : Op α χ → Prop
  | .await (.validateFence .dlqWrite) => True
  | .await .currentCheckpoint => True
  | .await (.dlqWrite _) => True
  | .await .onHandled => True
  | _ => False

/-- What is started and opened is the same in both states. -/
structure SameFlags (s s' : PipelineRunState α χ) : Prop where
  middlewaresStarted : s'.middlewaresStarted = s.middlewaresStarted
  writerOpened : s'.writerOpened = s.writerOpened
  dlqOpened : s'.dlqOpened = s.dlqOpened

/-- What the error handling is allowed to do. -/
def routing : Footprint (Op α χ) Empty (PipelineRunState α χ) where
  marks := fun _ => False
  calls := Routes
  writes := SameFlags
  hangs := False

/-- An operation that routing may use stays within routing. -/
theorem within_invoke {a : Await α χ} (h : Routes (.await a)) :
    (invoke a : Program α χ a.Value).Within routing :=
  within_bind (within_perform h) fun _ => within_ofExcept _

/-- So does a change that keeps the flags. -/
theorem within_keepFlags {f : PipelineRunState α χ → PipelineRunState α χ}
    (h : ∀ s, SameFlags s (f s)) : (modify f : Program α χ Unit).Within routing :=
  within_modify h

/-- So does writing to the dead-letter queue. -/
theorem within_writeToDlq (stage : String) (exc : Exc) (rec : Option α) (checkpoint : Option χ)
    (source : Option String) :
    (spec.writeToDlq stage exc rec checkpoint source).Within routing := by
  unfold writeToDlq
  refine within_ite (within_ret _) ?_
  refine within_bind (within_attempt ?_) fun written => ?_
  · refine within_bind ?_ fun _ => within_bind ?_ fun value => within_invoke trivial
    · unfold assertRunFenceActive
      refine within_ite (within_bind (within_invoke trivial) fun active => ?_) (within_ret _)
      exact within_ite (within_ret _) (within_raise _)
    · cases checkpoint with
      | some checkpoint => exact within_ret _
      | none => exact within_invoke trivial
  · cases written with
    | ok v => exact within_ret _
    | error dlqExc =>
      refine within_ite (within_bind (within_keepFlags fun _ => ⟨rfl, rfl, rfl⟩) fun _ => ?_)
        (within_raise _)
      exact within_ite (within_raise _) (within_ret _)

/-- So does routing the error of a run. -/
theorem within_routeRunError (exc : RunError α χ) :
    (spec.routeRunError exc).Within routing := by
  unfold routeRunError
  refine within_bind (within_keepFlags fun _ => ⟨rfl, rfl, rfl⟩) fun _ => ?_
  refine within_bind within_read fun s => within_ite (within_ret _) ?_
  cases exc with
  | sourceRecord e =>
    refine within_bind (within_writeToDlq _ _ _ _ _) fun routed => ?_
    exact within_ite (within_invoke trivial) (within_ret _)
  | _ => exact within_bind (within_writeToDlq _ _ _ _ _) fun _ => within_ret _

/-- So does handling it. -/
theorem within_handleRunError (exc : RunError α χ) :
    (spec.handleRunError exc).Within routing := by
  have hstored : (modify fun s => { s with runError := some exc } :
      Program α χ Unit).Within routing := within_keepFlags fun _ => ⟨rfl, rfl, rfl⟩
  cases exc with
  | exc e =>
    cases e with
    | keyboardInterrupt => exact within_keepFlags fun _ => ⟨rfl, rfl, rfl⟩
    | fenceLost message => exact within_bind hstored fun _ => within_ret _
    | recordDelivery original => exact within_bind hstored fun _ => within_ret _
    | checkpointSave original => exact within_bind hstored fun _ => within_ret _
    | _ => exact within_bind hstored fun _ => within_routeRunError _
  | _ => exact within_bind hstored fun _ => within_routeRunError _

/-- So does handling the outcome of a run. -/
theorem within_handleOutcome (outcome : Except (RunError α χ) Unit) :
    (spec.handleOutcome outcome).Within routing := by
  cases outcome with
  | ok v => exact within_ret _
  | error exc =>
    have hhandled : (spec.handleRunError exc >>= fun _ => pure none :
        Program α χ (Option (RunError α χ))).Within routing :=
      within_bind (within_handleRunError exc) fun _ => within_ret _
    cases exc with
    | exc e =>
      cases e with
      | cancelled =>
        exact within_bind (within_keepFlags fun _ => ⟨rfl, rfl, rfl⟩) fun _ => within_ret _
      | _ => exact hhandled
    | _ => exact hhandled

/-- Readiness depends on the flags only. -/
theorem Ready.sameFlags {s' : PipelineRunState α χ} (h : Ready spec s l) (hs : SameFlags s s') :
    Ready spec s' l := by
  obtain ⟨hmiddlewares, hwriter, hdlq⟩ := hs
  constructor
  · exact fun hstarted => h.running (hmiddlewares ▸ hstarted)
  · exact fun hstarted => h.stopped (hmiddlewares ▸ hstarted)
  · exact fun hopened => h.writerOpen (hwriter ▸ hopened)
  · exact fun hopened => by
      rw [hdlq]
      exact h.writerClosed (hwriter ▸ hopened)
  · exact fun hopened => h.dlqOpen (hdlq ▸ hopened)
  · exact fun hopened => h.dlqClosed (hdlq ▸ hopened)
  · exact h.source
  · exact h.store

/-- Handling the outcome of the body starts and stops nothing. -/
theorem safe_handleOutcome (outcome : Except (RunError α χ) Unit) (h : ReadyAt spec w) :
    (spec.handleOutcome outcome).Safe spec.contract (fun _ _ => ReadyAt spec)
      (fun _ _ => ReadyAt spec) w₀ w := by
  refine Safe.frame (F := routing) ?_ ?_ ?_ id (within_handleOutcome outcome) h
  · intro w s hw hs
    exact Ready.sameFlags hw hs
  · intro w m _
    cases m
  · intro w o r ho hw _
    have hsame : spec.ledger (w.called o r).trace = spec.ledger w.trace ∧
        spec.StreamsStarted (spec.ledger w.trace) (.called o r) := by
      rw [World.called_trace, ledger_snoc]
      cases o with
      | openRolledBack sink => exact ho.elim
      | await a =>
        cases a with
        | validateFence guarded =>
          cases guarded with
          | dlqWrite => exact ⟨rfl, trivial⟩
          | writerFlush => exact ho.elim
        | currentCheckpoint => exact ⟨rfl, trivial⟩
        | dlqWrite _ => exact ⟨rfl, trivial⟩
        | onHandled => exact ⟨rfl, trivial⟩
        | _ => exact ho.elim
    refine ⟨hsame.2, ?_⟩
    unfold ReadyAt
    rw [hsame.1]
    exact hw

/-! ## Shutdown -/

/-- The ledger after the sink was closed once more. -/
def closedSink (l : Ledger) (sink : Sink) : Ledger :=
  l.setSink sink { l.sink sink with closes := (l.sink sink).closes + 1 }

/-- A sink that was opened is closed, also when its flush fails; only closing the writer can raise,
and then there is no store left to close. -/
theorem safe_flushAndClose (sink : Sink) {opened : Bool} {flush : Program α χ Unit}
    {firstError : Option (RunError α χ)} (h : spec.At s l w)
    (hflush : flush.Safe spec.contract (fun _ _ => spec.At s l)
      (fun exc _ w' => exc.isException = true ∧ spec.At s l w') w₀ w) :
    (flushAndClose sink opened flush firstError).Safe spec.contract
      (fun _ _ => spec.At s (if opened then closedSink l sink else l))
      (fun _ _ w' => sink = .writer ∧ spec.delivery.checkpointStore = false ∧
        spec.At s (if opened then closedSink l sink else l) w') w₀ w := by
  unfold flushAndClose
  cases opened with
  | false => exact h
  | true =>
    rw [if_pos rfl, if_pos rfl, safe_bind]
    have hclose : ∀ (w₀ w : RunWorld α χ) (kept : Option (RunError α χ)), spec.At s l w →
        (capture (invoke (.close .shutdown sink)) kept).Safe spec.contract
          (fun _ _ => spec.At s (closedSink l sink))
          (fun _ _ w' => sink = .writer ∧ spec.delivery.checkpointStore = false ∧
            spec.At s (closedSink l sink) w') w₀ w := by
      intro w₀ w kept hat
      refine safe_capture (safe_invoke (a := .close .shutdown sink) hat (fun _ => trivial) ?_ ?_)
      · exact fun _ _ w' hw' => hw'
      · intro exc w₀ w' hexc hw'
        by_cases hexception : exc.isException = true
        · rw [if_pos hexception]
          exact hw'
        · rw [if_neg hexception]
          obtain ⟨hsink, hstore⟩ := hexc.resolve_left hexception
          exact ⟨hsink, hstore rfl, hw'⟩
    refine safe_capture (hflush.mono ?_ ?_)
    · exact fun _ w₀ w hat => hclose w₀ w _ hat
    · rintro exc w₀ w ⟨hexception, hat⟩
      rw [if_pos hexception]
      exact hclose w₀ w _ hat

/-- `WriterTransport.flush` raises exceptions only. -/
theorem safe_flushWriter (h : spec.At s l w) :
    spec.flushWriter.Safe spec.contract (fun _ _ => spec.At s l)
      (fun exc _ w' => exc.isException = true ∧ spec.At s l w') w₀ w := by
  have hflush : ∀ w₀ w : RunWorld α χ, spec.At s l w →
      (invoke (.flush .writer) : Program α χ Unit).Safe spec.contract (fun _ _ => spec.At s l)
        (fun exc _ w' => exc.isException = true ∧ spec.At s l w') w₀ w := by
    intro w₀ w hat
    refine safe_invoke (a := .flush .writer) hat (fun _ => trivial) ?_ ?_
    · exact fun _ _ _ hw' => hw'
    · exact fun _ _ _ hexc hw' => ⟨hexc, hw'⟩
  unfold flushWriter assertRunFenceActive
  rw [safe_bind]
  by_cases hfence : spec.delivery.runFence = true
  · rw [if_pos hfence, safe_bind]
    refine safe_invoke (a := .validateFence .writerFlush) h (fun _ => trivial) ?_ ?_
    · intro active w₀ w hat
      cases active with
      | true => exact hflush w₀ w hat
      | false => exact ⟨rfl, hat⟩
    · exact fun _ _ _ hexc hw' => ⟨hexc, hw'⟩
  · rw [if_neg hfence]
    exact hflush w₀ w h

/-- Stopping the middlewares at the shutdown. -/
theorem safe_stopStarted (h : spec.At s l w) (hready : Ready spec s l) :
    (if s.middlewaresStarted then capture spec.stopAll none else pure none :
        Program α χ (Option (RunError α χ))).Safe spec.contract
      (fun _ _ => spec.At s { l with stopped := l.called.reverse })
      (fun _ _ w' => spec.CleanedUp (spec.ledger w'.trace)) w₀ w := by
  by_cases hstarted : s.middlewaresStarted = true
  · rw [if_pos hstarted]
    obtain ⟨hcalled, hstopped⟩ := hready.running hstarted
    have hstop := safe_stopEach .shutdown spec.middlewares h w₀
    rw [hstopped, List.nil_append, ← hcalled] at hstop
    refine safe_capture ?_
    unfold stopAll
    rw [← hcalled]
    refine hstop.mono (fun _ _ w hat => hat) ?_
    rintro exc w₀ w ⟨hat, hsite⟩
    by_cases hexception : exc.isException = true
    · rw [if_pos hexception]
      exact hat
    · rw [if_neg hexception]
      -- a writer that is still open is not closed once
      obtain ⟨hstore, hwriter⟩ := hsite rfl
      have hclosed : s.writerOpened = false := by
        by_contra hopen
        have hopened := hready.writerOpen (by simpa using hopen)
        rw [hopened] at hwriter
        exact absurd (hwriter rfl) (by decide)
      have hdlq := hready.dlqClosed (hready.writerClosed hclosed).2
      rw [hat.ledger]
      exact ⟨rfl, hwriter, hdlq, hready.source, fun hyes => absurd hyes (by simp [hstore])⟩
  · have hnot : s.middlewaresStarted = false := by simpa using hstarted
    rw [if_neg hstarted, ← hready.stopped hnot]
    exact h

/-- The ledger after the middlewares were stopped and the dead-letter sink was closed. -/
def shutDlq (spec : PipelineRuntimeSpec α χ) (s : PipelineRunState α χ) (l : Ledger) : Ledger :=
  if s.dlqOpened && spec.delivery.dlqSink then closedSink { l with stopped := l.called.reverse } .dlq
  else { l with stopped := l.called.reverse }

/-- The ledger after both sinks were closed. -/
def shutSinks (spec : PipelineRuntimeSpec α χ) (s : PipelineRunState α χ) (l : Ledger) : Ledger :=
  if s.writerOpened then closedSink (shutDlq spec s l) .writer else shutDlq spec s l

/-- With both sinks closed, only the store is left. -/
theorem Ready.cleanedUp (h : Ready spec s l) (storeCloses : ℕ)
    (hstore : spec.delivery.checkpointStore = true → storeCloses = 1) :
    spec.CleanedUp { shutSinks spec s l with storeCloses := storeCloses } := by
  have hdlq : (shutDlq spec s l).dlq.ClosedOnce := by
    unfold shutDlq
    by_cases hopened : s.dlqOpened = true
    · obtain ⟨hopen, hsink⟩ := h.dlqOpen hopened
      simp [hopened, hsink, closedSink, Ledger.setSink, Ledger.sink, hopen, Component.ClosedOnce]
    · simpa [hopened] using h.dlqClosed (by simpa using hopened)
  have hrest : (shutDlq spec s l).stopped = (shutDlq spec s l).called.reverse ∧
      (shutDlq spec s l).writer = l.writer ∧ (shutDlq spec s l).source = l.source := by
    unfold shutDlq
    split <;> exact ⟨rfl, rfl, rfl⟩
  obtain ⟨hstopped, hwriter, hsource⟩ := hrest
  unfold shutSinks
  by_cases hopened : s.writerOpened = true
  · rw [if_pos hopened]
    refine ⟨hstopped, ?_, hdlq, ?_, hstore⟩
    · simp [closedSink, Ledger.setSink, Ledger.sink, hwriter, h.writerOpen hopened,
        Component.ClosedOnce]
    · exact hsource ▸ h.source
  · rw [if_neg hopened]
    refine ⟨hstopped, ?_, hdlq, ?_, hstore⟩
    · exact hwriter ▸ (h.writerClosed (by simpa using hopened)).1
    · exact hsource ▸ h.source

/-- The shutdown leaves nothing open, however it ends. -/
theorem safe_shutdownRuntime (h : ReadyAt spec w) :
    spec.shutdownRuntime.Safe spec.contract
      (fun _ _ w' => spec.CleanedUp (spec.ledger w'.trace))
      (fun _ _ w' => spec.CleanedUp (spec.ledger w'.trace)) w₀ w := by
  generalize hs : w.state = s
  generalize hl : spec.ledger w.trace = l
  have hat : spec.At s l w := ⟨hs, hl⟩
  have hready : Ready spec s l := by
    rw [← hs, ← hl]
    exact h
  rw [shutdownRuntime, safe_bind, safe_read, hs, safe_bind]
  refine (safe_stopStarted hat hready).mono ?_ fun _ _ _ hclean => hclean
  intro stopped w₀ w hat
  rw [safe_bind]
  refine (safe_flushAndClose .dlq hat ?_).mono ?_ ?_
  · refine safe_invoke (a := .flush .dlq) hat (fun _ => trivial) ?_ ?_
    · exact fun _ _ _ hw' => hw'
    · exact fun _ _ _ hexc hw' => ⟨hexc, hw'⟩
  · intro dlqClosed w₀ w hat
    have hdlq : spec.At s (shutDlq spec s l) w := hat
    rw [safe_bind]
    refine (safe_flushAndClose .writer hdlq (safe_flushWriter hdlq)).mono ?_ ?_
    · intro writerClosed w₀ w hat
      have hsinks : spec.At s (shutSinks spec s l) w := hat
      rw [safe_bind]
      by_cases hstore : spec.delivery.checkpointStore = true
      · rw [if_pos hstore]
        -- the store is closed once, whatever its close raises
        have hclosing : ∀ (r : Except (RunError α χ) Unit) (w' : RunWorld α χ),
            spec.At s (spec.record (shutSinks spec s l) (.called (.await .storeClose) r)) w' →
            spec.CleanedUp (spec.ledger w'.trace) := by
          intro r w' hw'
          have hcloses : (shutSinks spec s l).storeCloses = 0 := by
            unfold shutSinks shutDlq
            split <;> split <;> exact hready.store
          rw [hw'.ledger]
          have hclean := hready.cleanedUp 1 fun _ => rfl
          simpa only [record, hcloses, Nat.zero_add] using hclean
        refine safe_capture (safe_invoke (a := .storeClose) hsinks (fun _ => trivial) ?_ ?_)
        · intro v w₀ w' hw'
          exact hclosing (.ok v) w' hw'
        · intro exc w₀ w' _ hw'
          by_cases hexception : exc.isException = true
          · rw [if_pos hexception]
            exact hclosing (.error exc) w' hw'
          · rw [if_neg hexception]
            exact hclosing (.error exc) w' hw'
      · rw [if_neg hstore, pure_eq_ret, safe_ret, pure_eq_ret, safe_ret, hsinks.ledger]
        exact hready.cleanedUp _ fun hyes => absurd hyes hstore
    · rintro exc w₀ w ⟨-, hstore, hat⟩
      have hsinks : spec.At s (shutSinks spec s l) w := hat
      rw [hsinks.ledger]
      exact hready.cleanedUp _ fun hyes => absurd hyes (by simp [hstore])
  · rintro exc w₀ w ⟨hsink, -⟩
    cases hsink

/-! ## The run -/

/-- The `finally` clause leaves nothing open, however it ends. -/
theorem safe_finish (h : ReadyAt spec w) :
    spec.finish.Safe spec.contract (fun _ _ w' => spec.CleanedUp (spec.ledger w'.trace))
      (fun _ _ w' => spec.CleanedUp (spec.ledger w'.trace)) w₀ w := by
  have hat : spec.At w.state (spec.ledger w.trace) w := ⟨rfl, rfl⟩
  rw [finish, safe_bind, safe_read, safe_bind]
  by_cases htask : w.state.liveMetricsTask = true
  · rw [if_pos htask]
    refine safe_catchException
      (safe_invoke (a := .joinLiveMetrics) hat (fun _ => trivial) ?_ ?_)
    · intro v w₀ w' hw'
      exact safe_shutdownRuntime (hw'.readyAt h)
    · intro exc w₀ w' hexc hw'
      have hexception : exc.isException = true := hexc
      rw [if_pos hexception, pure_eq_ret, safe_ret]
      exact safe_shutdownRuntime (hw'.readyAt h)
  · rw [if_neg htask]
    exact safe_shutdownRuntime h

/-- What is raised at the end starts and stops nothing. -/
theorem safe_raiseTerminalError {cancellation shutdownError : Option (RunError α χ)}
    {Q : Unit → RunWorld α χ → RunWorld α χ → Prop} {P : RunWorld α χ → Prop}
    (hQ : Q () w₀ w) (h : P w) :
    (spec.raiseTerminalError cancellation shutdownError).Safe spec.contract Q (fun _ _ => P)
      w₀ w := by
  rw [raiseTerminalError, safe_bind, safe_read]
  cases cancellation with
  | some exc => exact h
  | none =>
    cases w.state.runError with
    | some exc => exact h
    | none =>
      cases shutdownError with
      | some exc => exact h
      | none => exact hQ

/-- The `finally` clause and what follows it leave nothing open, however they end. -/
theorem safe_conclude {handled : Except (RunError α χ) (Option (RunError α χ))}
    (h : ReadyAt spec w) :
    (spec.conclude handled).Safe spec.contract
      (fun _ _ w' => spec.CleanedUp (spec.ledger w'.trace))
      (fun _ _ w' => spec.CleanedUp (spec.ledger w'.trace)) w₀ w := by
  rw [conclude, safe_bind]
  refine (safe_finish h).mono ?_ fun _ _ _ hclean => hclean
  intro shutdownError w₀ w hclean
  rw [safe_bind]
  cases handled with
  | error exc => exact hclean
  | ok cancellation =>
    rw [ofExcept_ok, safe_ret, safe_bind]
    exact safe_raiseTerminalError hclean hclean

/-- The whole run leaves nothing open, however it ends. -/
theorem safe_execute (spec : PipelineRuntimeSpec α χ) (w₀ : RunWorld α χ) :
    spec.execute.Safe spec.contract (fun _ _ w' => spec.CleanedUp (spec.ledger w'.trace))
      (fun _ _ w' => spec.CleanedUp (spec.ledger w'.trace)) w₀ ⟨{}, []⟩ := by
  have hstart : spec.At {} {} ⟨{}, []⟩ := ⟨rfl, rfl⟩
  rw [execute, safe_bind]
  refine (safe_restoreCheckpoint hstart).mono ?_ fun _ _ _ hf => hf.elim
  rintro _ w₀ w ⟨metrics, restored, hrestored, hat⟩
  have hrest : ∀ (outcome : Except (RunError α χ) Unit) (w₀ w : RunWorld α χ), ReadyAt spec w →
      (attempt (spec.handleOutcome outcome) >>= spec.conclude).Safe spec.contract
        (fun _ _ w' => spec.CleanedUp (spec.ledger w'.trace))
        (fun _ _ w' => spec.CleanedUp (spec.ledger w'.trace)) w₀ w := by
    intro outcome w₀ w hready
    rw [safe_bind, safe_attempt]
    refine (safe_handleOutcome outcome hready).mono ?_ ?_
    · exact fun _ _ _ hhandled => safe_conclude hhandled
    · exact fun _ _ _ hhandled => safe_conclude hhandled
  rw [safe_bind, safe_attempt]
  refine (safe_runBody hrestored hat).mono ?_ ?_
  · exact fun _ w₀ w => hrest (.ok ()) w₀ w
  · exact fun exc w₀ w => hrest (.error exc) w₀ w

end PipelineRuntimeSpec

open PipelineRuntimeSpec

/-- In every run of harmless steps, the records are streamed only after the whole startup, every
middleware that was asked to start is stopped once and in reverse order, and every sink, the source
and the store are closed once. -/
theorem lifecycle_of_harmless (spec : PipelineRuntimeSpec α χ)
    (h : Handler (Op α χ) Op.Ret Empty)
    (hharmless : Along (fun t => spec.Harmless (spec.ledger t)) [] (spec.run h).2.trace) :
    spec.Lifecycle (spec.run h).2.trace := by
  have hsafe := safe_execute spec ⟨{}, []⟩
  obtain ⟨t, ht, hpost⟩ := hsafe.run_alone h
  rw [List.nil_append] at ht
  have htrace : (spec.run h).2.trace = t := ht
  rw [htrace] at hharmless ⊢
  obtain ⟨hensured, hend⟩ := hpost hharmless
  refine ⟨hensured, ?_⟩
  rw [← htrace]
  cases hrun : (spec.execute.run h ⟨{}, []⟩).1 with
  | returned metrics =>
    rw [hrun] at hend
    obtain ⟨_, hclean⟩ := hend
    exact hclean
  | raised exc =>
    rw [hrun] at hend
    obtain ⟨_, hclean⟩ := hend
    exact hclean
  | hung =>
    rw [hrun] at hend
    exact hend.elim

/-! ## Runs on fixed input -/

/-- A run whose dead-letter sink fails to open and whose middlewares fail to stop. -/
theorem lifecycle_of_harmless_openFailed :
    (PipelineRuntimeSpec.standard 2).Lifecycle ((PipelineRuntimeSpec.standard 2).run
      (failing fun
        | .opening .dlq => some (.exc (.runtimeError "no disk"))
        | .onStop _ _ => some (.exc (.runtimeError "stop"))
        | _ => none)).2.trace := by
  refine lifecycle_of_harmless _ _ ?_
  refine ⟨trivial, trivial, trivial, trivial, trivial, rfl, ?_⟩
  -- the sinks are closed, then the middlewares are stopped
  refine ⟨nofun, trivial, nofun, trivial, ?_⟩
  exact ⟨.inl rfl, .inl rfl, trivial, trivial⟩

/-- A checkpoint that cannot be loaded ends the run with the store left open. -/
theorem not_lifecycle_loadFailed :
    ¬ (PipelineRuntimeSpec.standard 2).Lifecycle ((PipelineRuntimeSpec.standard 2).run
      (failing fun
        | .load _ => some (.exc (.runtimeError "corrupt"))
        | _ => none)).2.trace := by
  intro h
  have hstore := h.2.store rfl
  exact absurd hstore (by decide)

end AgoraEtl.Session
