import AgoraEtl.Effect.Protocol
import AgoraEtl.Runner.RunWithAbort
import Mathlib.Data.Rat.Defs

/-!
# Scheduled runs under a lease

`WorkerPool._wire_lease_gating` gates the runs of a scheduled pipeline by the lease of a coordinator:
the pre-run hook asks for the lease and binds a fence, and an observer of the completed run releases
the lease again.  `ScheduledPipelineRunner.run` then goes from run to run; everything it awaits may
raise, and may be cancelled.

The order in which a worker deals with the coordinator is a protocol: it asks for the lease only when
it has none to release, starts at most one run for a grant, hands that run the fence of the grant, and
calls `release_lease` once.  When that raises, the error is logged like that of any observer, and the
worker goes on as if the lease was released.

`_run_with_abort` is one call here, with the ways of leaving it that `Runner.Tasks` computes; times, log
lines, summaries and metrics are left out.
-/

namespace AgoraEtl.Leased

open Effect Program

/-! ## The loop -/

/-- The snapshot of a lease that this worker holds. -/
structure LeaseState where
  workerId : String
  fencingToken : ℤ
  deriving DecidableEq

/-- The fence that is bound to a run. -/
structure RunFence where
  pipelineId : String
  workerId : String
  fencingToken : ℤ
  deriving DecidableEq

/-- What a run can end with: an exception, or `LeaseLost`. -/
inductive RunError where
  | exc (e : Exc)
  | leaseLost
  deriving DecidableEq

/-- The stats of one run. -/
structure RunRecord where
  runNumber : ℕ
  error : Option RunError
  deriving DecidableEq

/-- The callbacks that are told of a completed run: one of the pipeline's own, or the one that releases
the lease. -/
inductive Observer where
  | registered (id : ℕ)
  | release
  deriving DecidableEq

/-- What the loop asks the outside. -/
inductive Op where
  | stopIsSet
  | existingHook
  | tryAcquireLease (runNumber : ℕ)
  | currentLease
  | build
  | runWithAbort (fence : Option RunFence)
  | nextDelay (consecutiveErrors : ℕ)
  | sleep (seconds : ℚ)
  | onRunComplete (record : RunRecord)
  | observer (id : ℕ) (record : RunRecord)
  | releaseLease
  | waitUntilNext
  | waitAfterSkip
  deriving DecidableEq

/-- The answers; `build` tells whether the pipeline has a `set_run_fence`. -/
abbrev Op.Ret : Op → Type
  | .stopIsSet => Bool
  | .existingHook => Except Exc Bool
  | .tryAcquireLease _ => Except Exc Bool
  | .currentLease => Except Exc (Option LeaseState)
  | .build => Except Exc Bool
  | .runWithAbort _ => Runner.Result Unit
  | .nextDelay _ => Except Exc ℚ
  | .sleep _ => Except Exc Unit
  | .onRunComplete _ => Except Exc Unit
  | .observer _ _ => Except Exc Unit
  | .releaseLease => Except Exc Unit
  | .waitUntilNext => Except Exc Unit
  | .waitAfterSkip => Except Exc Unit

/-- The mark of a loop: a run is about to be started. -/
inductive Mark where
  | runStarts
  deriving DecidableEq

/-- Mutable scheduler state. -/
structure ScheduledPipelineState where
  runNumber : ℕ := 0
  consecutiveErrors : ℕ := 0
  history : List RunRecord := []
  running : Bool := false
  runFence : Option RunFence := none

/-- A scheduled pipeline with its wired hooks, and what its coordinator has methods for. -/
structure ScheduledPipeline where
  pipelineId : String
  shouldRepeat : Bool
  maxConsecutiveErrors : ℤ
  hasExistingHook : Bool
  hasCurrentLease : Bool
  hasValidateLease : Bool
  hasOnRunComplete : Bool
  observers : List Observer

/-- A pipeline of a leased pool: one observer releases the lease. -/
structure LeasedPipeline extends ScheduledPipeline where
  released : observers.count .release = 1

/-! ### The wiring -/

/-- A pre-run hook: one of the pipeline's own, or one that asks for the lease. -/
inductive Hook where
  | own (id : ℕ)
  | gate (id : ℕ)
  deriving DecidableEq

/-- The hooks of a pipeline, with what the pool remembers of them: the hook that it wired last, the one
that this calls first, and whether it has added the observer that releases the lease. -/
structure Hooks where
  preRunHook : Option Hook := none
  observers : List Observer := []
  wiredHook : Option Hook := none
  existingHook : Option Hook := none
  releaseAdded : Bool := false
  created : ℕ := 0

/-- What is done to the hooks of a pipeline. -/
inductive Hooks.Change where
  | setPreRunHook (id : Option ℕ)
  | addObserver (id : ℕ)
  | wireLeaseGating

namespace Hooks

/-- `_add_release_observer`, unless it was added before. -/
def addRelease (s : Hooks) : Hooks :=
  if s.releaseAdded then s
  else { s with observers := s.observers ++ [.release], releaseAdded := true }

/-- `_wire_lease_gating`. -/
def wireLeaseGating (s : Hooks) : Hooks :=
  if s.wiredHook.isSome ∧ s.preRunHook = s.wiredHook then s.addRelease
  else { s with
    preRunHook := some (.gate s.created)
    wiredHook := some (.gate s.created)
    existingHook := s.preRunHook
    created := s.created + 1 }.addRelease

/-- One change. -/
def change (s : Hooks) : Change → Hooks
  | .setPreRunHook id => { s with preRunHook := id.map .own }
  | .addObserver id => { s with observers := s.observers ++ [.registered id] }
  | .wireLeaseGating => s.wireLeaseGating

/-- The observer that releases the lease is there once, if it was added. -/
theorem count_release_foldl (changes : List Change) (s : Hooks)
    (h : s.observers.count .release = s.releaseAdded.toNat) :
    (changes.foldl change s).observers.count .release =
      (changes.foldl change s).releaseAdded.toNat := by
  have hadd : ∀ s : Hooks, s.observers.count .release = s.releaseAdded.toNat →
      s.addRelease.observers.count .release = s.addRelease.releaseAdded.toNat := by
    intro s hs
    unfold addRelease
    cases hadded : s.releaseAdded with
    | true => simpa [hadded] using hs
    | false => simpa [hadded, List.count_append] using hs
  induction changes generalizing s with
  | nil => exact h
  | cons c changes ih =>
    refine ih (s.change c) ?_
    cases c with
    | setPreRunHook id => exact h
    | addObserver id => simpa [change, List.count_append] using h
    | wireLeaseGating =>
      change s.wireLeaseGating.observers.count .release = s.wireLeaseGating.releaseAdded.toNat
      unfold wireLeaseGating
      split
      · exact hadd s h
      · exact hadd _ h

/-- After the wiring the release observer is there. -/
theorem releaseAdded_wireLeaseGating (s : Hooks) : s.wireLeaseGating.releaseAdded = true := by
  have hadd : ∀ s : Hooks, s.addRelease.releaseAdded = true := by
    intro s
    unfold addRelease
    split
    · assumption
    · rfl
  unfold wireLeaseGating
  split <;> exact hadd _

/-- The hooks of a pipeline after any changes and the wiring. -/
def wiredAfter (changes : List Change) : Hooks := (changes.foldl change {}).wireLeaseGating

end Hooks

/-- A pipeline with the hooks that the pool has wired. -/
def LeasedPipeline.wired (changes : List Hooks.Change) (p : ScheduledPipeline) : LeasedPipeline where
  toScheduledPipeline := { p with
    hasExistingHook := (Hooks.wiredAfter changes).existingHook.isSome
    observers := (Hooks.wiredAfter changes).observers }
  released := by
    have hcount := Hooks.count_release_foldl (changes ++ [.wireLeaseGating]) {} rfl
    rw [List.foldl_append] at hcount
    change (Hooks.wiredAfter changes).observers.count .release = 1
    exact hcount.trans (by
      rw [show (List.foldl Hooks.change _ [.wireLeaseGating]) = Hooks.wiredAfter changes from rfl,
        Hooks.wiredAfter, Hooks.releaseAdded_wireLeaseGating]
      rfl)

/-! ### The rounds -/

/-- Programs of the loop. -/
abbrev LoopProgram (α : Type) : Type := Program Op Op.Ret Mark ScheduledPipelineState RunError α

/-- Raise what an awaited call has raised. -/
def raising {α : Type} : Except Exc α → LoopProgram α
  | .ok a => ret a
  | .error e => raise (.exc e)

/-- Log an `Exception` of a callback and go on. -/
def suppressing : Except Exc Unit → LoopProgram Unit
  | .ok () => ret ()
  | .error e => if e.isException then ret () else raise (.exc e)

namespace ScheduledPipeline

variable (p : ScheduledPipeline)

/-- The fence of a lease. -/
def fenceOf (lease : LeaseState) : RunFence := ⟨p.pipelineId, lease.workerId, lease.fencingToken⟩

/-- The end of `_pre_run_hook`, once the lease is acquired. -/
def bindFence : LoopProgram Bool :=
  if p.hasCurrentLease then do
    let lease ← perform .currentLease >>= raising
    match lease with
    | none => ret true
    | some lease =>
      if p.hasValidateLease then do
        modify fun s => { s with runFence := some (p.fenceOf lease) }
        ret true
      else ret true
  else ret true

/-- `_pre_run_hook` behind the hook that was there before. -/
def acquire : LoopProgram Bool := do
  modify fun s => { s with runFence := none }
  let s ← read
  let acquired ← perform (.tryAcquireLease (s.runNumber + 1)) >>= raising
  if acquired then p.bindFence else ret false

/-- `_pre_run_hook`. -/
def preRunHook : LoopProgram Bool :=
  if p.hasExistingHook then do
    let go ← perform .existingHook >>= raising
    if go then p.acquire else ret false
  else p.acquire

/-- The observers in the order of their registration. -/
def notifyObservers (record : RunRecord) : List Observer → LoopProgram Unit
  | [] => ret ()
  | .registered id :: rest => do
    perform (.observer id record) >>= suppressing
    notifyObservers record rest
  | .release :: rest => do
    perform .releaseLease >>= suppressing
    notifyObservers record rest

/-- `_notify_run_complete`. -/
def notifyRunComplete (record : RunRecord) : LoopProgram Unit :=
  if p.hasOnRunComplete then do
    perform (.onRunComplete record) >>= suppressing
    notifyObservers record p.observers
  else notifyObservers record p.observers

/-- `_run_with_abort`. -/
def runWithAbort (fence : Option RunFence) : LoopProgram (Runner.Result Unit) :=
  perform (Op.runWithAbort fence)

/-- The `try` block of `_run_once`, up to `_handle_run_success`. -/
def runBuilt : LoopProgram Unit := do
  let takesFence ← perform .build >>= raising
  let s ← read
  note .runStarts
  let result ← runWithAbort (if takesFence then s.runFence else none)
  match result with
  | .returned () => modify fun s => { s with consecutiveErrors := 0 }
  | .raised e => raise (.exc e)
  | .leaseLost => raise .leaseLost

/-- `_handle_run_failure`. -/
def handleRunFailure : LoopProgram Unit := do
  modify fun s => { s with consecutiveErrors := s.consecutiveErrors + 1 }
  let s ← read
  let wait ← perform (.nextDelay s.consecutiveErrors) >>= raising
  perform (.sleep wait) >>= raising

/-- The `except` clauses of `_run_once`: the error that the record keeps, and the handler. -/
def handleRun : Except RunError Unit → Option RunError × LoopProgram Unit
  | .ok () => (none, ret ())
  | .error .leaseLost => (some .leaseLost, ret ())
  | .error (.exc .cancelled) => (some (.exc .cancelled), raise (.exc .cancelled))
  | .error (.exc e) =>
    if e.isException then (some (.exc e), handleRunFailure) else (none, raise (.exc e))

/-- `history.append`, of a deque with at most a hundred elements. -/
def appendHistory (record : RunRecord) (s : ScheduledPipelineState) : ScheduledPipelineState :=
  let history := s.history ++ [record]
  { s with history := history.drop (history.length - 100) }

/-- The `finally` block of `_run_once`. -/
def finish (record : RunRecord) : LoopProgram Unit := do
  modify (appendHistory record)
  p.notifyRunComplete record
  modify fun s => { s with runFence := none }

/-- `_run_once` behind the pre-run hook. -/
def runLeased : LoopProgram Bool := do
  modify fun s => { s with runNumber := s.runNumber + 1 }
  let s ← read
  let ended ← runBuilt.attempt
  let handled ← (handleRun ended).2.attempt
  p.finish ⟨s.runNumber, (handleRun ended).1⟩
  ofExcept handled
  ret true

/-- `_run_once`. -/
def runOnce : LoopProgram Bool := do
  let go ← p.preRunHook
  if go then p.runLeased else ret false

/-- `_should_continue`. -/
def shouldContinue (s : ScheduledPipelineState) : Bool :=
  if p.shouldRepeat = false then false
  else decide ((s.consecutiveErrors : ℤ) < p.maxConsecutiveErrors)

/-- The wait before the next turn. -/
def wait (ran : Bool) : LoopProgram Unit :=
  if ran then perform .waitUntilNext >>= raising else perform .waitAfterSkip >>= raising

/-- One turn of the `while` loop. -/
def turn : Unit → LoopProgram (Unit ⊕ Unit) := fun _ => do
  let stopped ← perform .stopIsSet
  if stopped then ret (.inr ())
  else do
    let ran ← p.runOnce
    let s ← read
    if p.shouldContinue s then do
      wait ran
      ret (.inl ())
    else ret (.inr ())

/-- `run`. -/
def run (fuel : ℕ) : LoopProgram Unit := do
  modify fun s => { s with running := true }
  let ended ← (iterate p.turn fuel ()).attempt
  modify fun s => { s with running := false }
  match ended with
  | .ok () => ret ()
  | .error (.exc .cancelled) => ret ()
  | .error e => raise e

end ScheduledPipeline

/-! ## The protocol of a lease -/

/-- What an event of the loop means for the lease. -/
inductive Action where
  | asked (granted : Bool)
  | told (lease : LeaseState)
  | built (takesFence : Bool)
  | entered
  | ran (fence : Option RunFence)
  | released
  | unreleased
  | broken
  | other
  deriving DecidableEq

/-- What the answer of a callback means: an error that is not an `Exception` leaves the round. -/
def callbackAction : Except Exc Unit → Action
  | .ok () => .other
  | .error e => if e.isException then .other else .broken

/-- What one event of the loop means; an error of `current_lease` leaves the round before the lease is
released. -/
def actionOf : Event Op Op.Ret Mark → Action
  | .mark .runStarts => .entered
  | .called (.tryAcquireLease _) (.ok granted) => .asked granted
  | .called (.tryAcquireLease _) (.error _) => .asked false
  | .called .currentLease (.ok (some lease)) => .told lease
  | .called .currentLease (.error _) => .broken
  | .called .build (.ok takesFence) => .built takesFence
  | .called (.runWithAbort fence) _ => .ran fence
  | .called .releaseLease (.ok ()) => .released
  | .called .releaseLease (.error _) => .unreleased
  | .called (.onRunComplete _) r => callbackAction r
  | .called (.observer _ _) r => callbackAction r
  | _ => .other

/-- Where a worker stands: it has no lease to release; it holds one whose fence is bound; a run is under
way; the run is over; or the round was left with the lease still held. -/
inductive Phase where
  | free
  | granted (fence : Option RunFence)
  | running (fence : Option RunFence)
  | spent
  | abandoned
  deriving DecidableEq

/-- The lease is held, and it still can be released. -/
def Phase.Held : Phase → Prop
  | .granted _ => True
  | .spent => True
  | _ => False

namespace ScheduledPipeline

variable (p : ScheduledPipeline)

/-- The next phase; `none` where the action is not allowed. -/
def nextPhase : Phase → Action → Option Phase
  | .free, .asked true => some (.granted none)
  | .free, .asked false => some .free
  | .free, .broken => some .free
  | .free, .other => some .free
  | .granted fence, .told lease =>
    some (.granted (if p.hasValidateLease then some (p.fenceOf lease) else fence))
  | .granted fence, .built takesFence => some (.granted (if takesFence then fence else none))
  | .granted fence, .entered => some (.running fence)
  | .granted _, .released => some .free
  | .granted _, .unreleased => some .free
  | .granted _, .broken => some .abandoned
  | .granted fence, .other => some (.granted fence)
  | .running fence, .ran fence' => if fence' = fence then some .spent else none
  | .spent, .released => some .free
  | .spent, .unreleased => some .free
  | .spent, .broken => some .abandoned
  | .spent, .other => some .spent
  | _, _ => none

/-- The moves of the protocol. -/
inductive Move : Phase → Action → Phase → Prop where
  | declined : Move .free (.asked false) .free
  | granted : Move .free (.asked true) (.granted none)
  | bound {fence : Option RunFence} (lease : LeaseState) : Move (.granted fence) (.told lease)
      (.granted (if p.hasValidateLease then some (p.fenceOf lease) else fence))
  | built {fence : Option RunFence} (takesFence : Bool) :
      Move (.granted fence) (.built takesFence) (.granted (if takesFence then fence else none))
  | entered {fence : Option RunFence} : Move (.granted fence) .entered (.running fence)
  | ran {fence : Option RunFence} : Move (.running fence) (.ran fence) .spent
  | released {phase : Phase} (held : phase.Held) : Move phase .released .free
  | unreleased {phase : Phase} (held : phase.Held) : Move phase .unreleased .free
  | left {phase : Phase} (held : phase.Held) : Move phase .broken .abandoned
  | over : Move .free .broken .free
  | other {phase : Phase} (resting : phase = .free ∨ phase.Held) : Move phase .other phase

/-- The next phase is a move. -/
theorem move_of_nextPhase {p : ScheduledPipeline} {phase phase' : Phase} {action : Action}
    (h : p.nextPhase phase action = some phase') : p.Move phase action phase' := by
  cases phase with
  | free =>
    rcases action with (_ | _) | _ | _ | _ | _ | _ | _ | _ | _ <;> cases h
    · exact .declined
    · exact .granted
    · exact .over
    · exact .other (.inl rfl)
  | granted fence =>
    cases action <;> cases h
    · exact .bound _
    · exact .built _
    · exact .entered
    · exact .released trivial
    · exact .unreleased trivial
    · exact .left trivial
    · exact .other (.inr trivial)
  | running fence =>
    cases action with
    | ran fence' =>
      simp only [nextPhase, Option.ite_none_right_eq_some] at h
      obtain ⟨rfl, h⟩ := h
      cases h
      exact .ran
    | _ => cases h
  | spent =>
    cases action <;> cases h
    · exact .released trivial
    · exact .unreleased trivial
    · exact .left trivial
    · exact .other (.inr trivial)
  | abandoned => cases action <;> cases h

/-- The protocol that the loop keeps to. -/
def leaseProtocol : Protocol Op Op.Ret Mark Phase where
  start := .free
  next phase e := p.nextPhase phase (actionOf e)

/-! ### The loop keeps to the protocol -/

variable {p} {phase : Phase} {α : Type} {w₀ w : World Op Op.Ret Mark ScheduledPipelineState}
  {Q : α → World Op Op.Ret Mark ScheduledPipelineState →
    World Op Op.Ret Mark ScheduledPipelineState → Prop}
  {E : RunError → World Op Op.Ret Mark ScheduledPipelineState →
    World Op Op.Ret Mark ScheduledPipelineState → Prop}

variable (p) in
/-- The loop stands in the phase. -/
def Stands (phase : Phase) (w : World Op Op.Ret Mark ScheduledPipelineState) : Prop :=
  p.leaseProtocol.phaseOf w.trace = some phase

variable (p) in
/-- The lease is held and can still be released. -/
def Holds (w : World Op Op.Ret Mark ScheduledPipelineState) : Prop :=
  ∃ phase : Phase, phase.Held ∧ p.Stands phase w

variable (p) in
/-- The round was left: no lease is held, or it was left behind. -/
def Left (w : World Op Op.Ret Mark ScheduledPipelineState) : Prop :=
  p.Stands .free w ∨ p.Stands .abandoned w

/-- Any other action leaves a phase at rest. -/
theorem nextPhase_other (h : phase = .free ∨ phase.Held) :
    p.nextPhase phase .other = some phase := by
  rcases h with rfl | h
  · rfl
  · cases phase <;> first | rfl | exact h.elim

/-- A call that is nothing to the lease. -/
theorem safe_other {o : Op} {Q : Op.Ret o → World Op Op.Ret Mark ScheduledPipelineState →
      World Op Op.Ret Mark ScheduledPipelineState → Prop}
    (ho : ∀ r, actionOf (.called o r) = .other) (hphase : phase = .free ∨ phase.Held)
    (hw : p.Stands phase w)
    (hQ : ∀ r, p.Stands phase (w.called o r) → Q r w (w.called o r)) :
    (perform o : LoopProgram (Op.Ret o)).Safe p.leaseProtocol.contract Q E w₀ w := by
  refine Protocol.safe_perform hw fun r => ⟨phase, ?_, hQ r⟩
  exact (congrArg (p.nextPhase phase) (ho r)).trans (nextPhase_other hphase)

/-- Passing on an outcome is safe if the outcome is right. -/
theorem safe_raising {C : Contract Op Op.Ret Mark ScheduledPipelineState} {r : Except Exc α}
    (hok : ∀ a, r = .ok a → Q a w₀ w) (herror : ∀ e, r = .error e → E (.exc e) w₀ w) :
    (raising r).Safe C Q E w₀ w := by
  cases r with
  | ok a => exact hok a rfl
  | error e => exact herror e rfl

/-- The fence of the state is the one of the grant. -/
theorem safe_bindFence (hw : p.Stands (.granted none) w) (hfence : w.state.runFence = none) :
    p.bindFence.Safe p.leaseProtocol.contract
      (fun go _ w => go = true ∧ p.Stands (.granted w.state.runFence) w) (fun _ _ w => p.Left w)
      w₀ w := by
  have hdone : ∀ w₀ w, p.Stands (.granted none) w → w.state.runFence = none →
      (ret true : LoopProgram Bool).Safe p.leaseProtocol.contract
        (fun go _ w => go = true ∧ p.Stands (.granted w.state.runFence) w)
        (fun _ _ w => p.Left w) w₀ w := by
    intro w₀ w hw hfence
    refine ⟨rfl, ?_⟩
    rwa [hfence]
  unfold bindFence
  split
  · rw [safe_bind, safe_bind]
    refine Protocol.safe_perform hw fun r => ?_
    rcases r with e | _ | lease
    · exact ⟨.abandoned, rfl, fun hleft => .inr hleft⟩
    · exact ⟨.granted none, rfl, fun hw' => hdone w _ hw' hfence⟩
    · refine ⟨_, rfl, fun hw' => ?_⟩
      change Safe _ _ _ (if p.hasValidateLease = true then _ else _) _ _
      by_cases hvalidate : p.hasValidateLease = true
      · rw [if_pos hvalidate] at hw' ⊢
        rw [safe_bind, safe_modify]
        exact ⟨rfl, hw'⟩
      · rw [if_neg hvalidate] at hw' ⊢
        exact hdone _ _ hw' hfence
  · exact hdone _ _ hw hfence

/-- Asking for the lease ends with it granted, or without it. -/
theorem safe_acquire (hw : p.Stands .free w) :
    p.acquire.Safe p.leaseProtocol.contract
      (fun go _ w => if go then p.Stands (.granted w.state.runFence) w else p.Stands .free w)
      (fun _ _ w => p.Left w) w₀ w := by
  unfold acquire
  rw [safe_bind, safe_modify, safe_bind, safe_read, safe_bind, safe_bind]
  have hfree : p.Stands .free (w.write { w.state with runFence := none }) := hw
  refine Protocol.safe_perform hfree fun r => ?_
  rcases r with e | _ | _
  · exact ⟨.free, rfl, fun hleft => .inl hleft⟩
  · exact ⟨.free, rfl, fun hfree => hfree⟩
  · refine ⟨.granted none, rfl, fun hgranted => ?_⟩
    refine (safe_bindFence hgranted rfl).mono (fun go _ w h => ?_) fun _ _ _ h => h
    rw [if_pos h.1]
    exact h.2

/-- The pre-run hook leaves with a lease exactly when it lets the run start. -/
theorem safe_preRunHook (hw : p.Stands .free w) :
    p.preRunHook.Safe p.leaseProtocol.contract
      (fun go _ w => if go then p.Stands (.granted w.state.runFence) w else p.Stands .free w)
      (fun _ _ w => p.Left w) w₀ w := by
  unfold preRunHook
  split
  · rw [safe_bind, safe_bind]
    refine safe_other (fun r => by cases r <;> rfl) (.inl rfl) hw fun r hw' => ?_
    refine safe_raising (fun go _ => ?_) fun e _ => .inl hw'
    split
    · exact safe_acquire hw'
    · exact hw'
  · exact safe_acquire hw

/-- A run is started at most once for a grant, with the fence that was bound. -/
theorem safe_runBuilt (hw : p.Stands (.granted w.state.runFence) w) :
    runBuilt.Safe p.leaseProtocol.contract (fun _ _ w => p.Holds w) (fun _ _ w => p.Holds w)
      w₀ w := by
  unfold runBuilt
  rw [safe_bind, safe_bind]
  refine Protocol.safe_perform hw fun r => ?_
  rcases r with e | takesFence
  · exact ⟨.granted w.state.runFence, rfl, fun hw' => ⟨.granted w.state.runFence, trivial, hw'⟩⟩
  · refine ⟨_, rfl, fun hw' => ?_⟩
    change Safe _ _ _ (_ >>= _) _ _
    rw [safe_bind, safe_read, safe_bind]
    refine Protocol.safe_note hw' rfl fun hentered => ?_
    rw [safe_bind]
    refine Protocol.safe_perform hentered fun result => ⟨.spent, if_pos rfl, fun hspent => ?_⟩
    cases result with
    | returned summary => exact ⟨.spent, trivial, hspent⟩
    | raised e => exact ⟨.spent, trivial, hspent⟩
    | leaseLost => exact ⟨.spent, trivial, hspent⟩

/-- Handling a failed run keeps the lease. -/
theorem safe_handleRunFailure (hw : p.Holds w) :
    handleRunFailure.Safe p.leaseProtocol.contract (fun _ _ w => p.Holds w)
      (fun _ _ w => p.Holds w) w₀ w := by
  obtain ⟨phase, hheld, hphase⟩ := hw
  unfold handleRunFailure
  rw [safe_bind, safe_modify, safe_bind, safe_read, safe_bind, safe_bind]
  refine safe_other (fun r => by cases r <;> rfl) (.inr hheld) hphase fun r hw' => ?_
  refine safe_raising (fun wait _ => ?_) fun e _ => ⟨phase, hheld, hw'⟩
  rw [safe_bind]
  refine safe_other (fun r => by cases r <;> rfl) (.inr hheld) hw' fun r hw'' => ?_
  exact safe_raising (fun _ _ => ⟨phase, hheld, hw''⟩) fun e _ => ⟨phase, hheld, hw''⟩

/-- Handling the end of a run keeps the lease. -/
theorem safe_handleRun (ended : Except RunError Unit) (hw : p.Holds w) :
    (handleRun ended).2.Safe p.leaseProtocol.contract (fun _ _ w => p.Holds w)
      (fun _ _ w => p.Holds w) w₀ w := by
  unfold handleRun
  split
  · exact hw
  · exact hw
  · exact hw
  · split
    · exact safe_handleRunFailure hw
    · exact hw

/-- What a callback may do to the phase: it leaves the round, or nothing. -/
theorem suppressing_spec {Q : Unit → World Op Op.Ret Mark ScheduledPipelineState →
      World Op Op.Ret Mark ScheduledPipelineState → Prop} (r : Except Exc Unit)
    (hphase : phase = .free ∨ phase.Held) (hQ : p.Stands phase w → Q () w₀ w) :
    ∃ phase', p.nextPhase phase (callbackAction r) = some phase' ∧
      (p.Stands phase' w →
        (suppressing r).Safe p.leaseProtocol.contract Q (fun _ _ w => p.Left w) w₀ w) := by
  rcases r with e | _
  · cases he : e.isException with
    | true =>
      refine ⟨phase, ?_, fun hw => ?_⟩
      · simp only [callbackAction, he, if_true]
        exact nextPhase_other hphase
      · simp only [suppressing, he, if_true]
        exact hQ hw
    | false =>
      rcases hphase with rfl | hheld
      · refine ⟨.free, by simp [callbackAction, he, nextPhase], fun hw => ?_⟩
        simp only [suppressing, he]
        exact .inl hw
      · refine ⟨.abandoned, ?_, fun hw => ?_⟩
        · simp only [callbackAction, he]
          cases phase <;> first | rfl | exact hheld.elim
        · simp only [suppressing, he]
          exact .inr hw
  · exact ⟨phase, nextPhase_other hphase, hQ⟩

/-- The lease is held for as long as the observer that releases it is still to be called. -/
theorem safe_notifyObservers (record : RunRecord) {observers : List Observer}
    (hphase : (phase = .free ∧ observers.count .release = 0) ∨
      (phase.Held ∧ observers.count .release = 1)) (hw : p.Stands phase w) :
    (notifyObservers record observers).Safe p.leaseProtocol.contract
      (fun _ _ w => p.Stands .free w) (fun _ _ w => p.Left w) w₀ w := by
  induction observers generalizing w₀ w phase with
  | nil =>
    rcases hphase with ⟨rfl, -⟩ | ⟨-, hcount⟩
    · exact hw
    · exact absurd hcount (by simp)
  | cons observer rest ih =>
    cases observer with
    | registered id =>
      rw [notifyObservers, safe_bind, safe_bind]
      refine Protocol.safe_perform hw fun r => ?_
      exact suppressing_spec r (hphase.imp And.left And.left) fun hw' => ih (by simpa using hphase) hw'
    | release =>
      obtain ⟨hheld, hcount⟩ : phase.Held ∧ rest.count .release = 0 := by
        rcases hphase with ⟨-, hcount⟩ | ⟨hheld, hcount⟩
        · exact absurd hcount (by simp)
        · exact ⟨hheld, by simpa using hcount⟩
      rw [notifyObservers, safe_bind, safe_bind]
      refine Protocol.safe_perform hw fun r => ⟨.free, ?_, fun hw' => ?_⟩
      · rcases r with e | _ <;> cases phase <;> first | rfl | exact hheld.elim
      · rcases r with e | _
        · change Safe _ _ _ (if e.isException then _ else _) _ _
          split
          · exact ih (.inl ⟨rfl, hcount⟩) hw'
          · exact .inl hw'
        · exact ih (.inl ⟨rfl, hcount⟩) hw'

end ScheduledPipeline

namespace LeasedPipeline

variable {p : LeasedPipeline} {w₀ w : World Op Op.Ret Mark ScheduledPipelineState}

/-- The observers are told, and the lease is released. -/
theorem safe_notifyRunComplete (record : RunRecord) (hw : p.Holds w) :
    (p.notifyRunComplete record).Safe p.leaseProtocol.contract (fun _ _ w => p.Stands .free w)
      (fun _ _ w => p.Left w) w₀ w := by
  obtain ⟨phase, hheld, hphase⟩ := hw
  have hobservers : ∀ w₀ w, p.Stands phase w →
      (ScheduledPipeline.notifyObservers record p.observers).Safe p.leaseProtocol.contract
        (fun _ _ w => p.Stands .free w) (fun _ _ w => p.Left w) w₀ w :=
    fun _ _ hw => ScheduledPipeline.safe_notifyObservers record (.inr ⟨hheld, p.released⟩) hw
  unfold ScheduledPipeline.notifyRunComplete
  split
  · rw [safe_bind, safe_bind]
    refine Protocol.safe_perform hphase fun r => ?_
    exact ScheduledPipeline.suppressing_spec r (.inr hheld) (hobservers _ _)
  · exact hobservers _ _ hphase

/-- A run under its lease ends with the lease released. -/
theorem safe_runLeased (hw : p.Stands (.granted w.state.runFence) w) :
    p.runLeased.Safe p.leaseProtocol.contract (fun _ _ w => p.Stands .free w)
      (fun _ _ w => p.Left w) w₀ w := by
  unfold ScheduledPipeline.runLeased
  rw [safe_bind, safe_modify, safe_bind, safe_read, safe_bind, safe_attempt]
  have hfinish : ∀ (number : ℕ) (ended : Except RunError Unit) w₀ w, p.Holds w →
      (do
        let handled ← (ScheduledPipeline.handleRun ended).2.attempt
        p.finish ⟨number, (ScheduledPipeline.handleRun ended).1⟩
        ofExcept handled
        ret true : LoopProgram Bool).Safe p.leaseProtocol.contract
        (fun _ _ w => p.Stands .free w) (fun _ _ w => p.Left w) w₀ w := by
    intro number ended w₀ w hw
    have hrest : ∀ (handled : Except RunError Unit) w₀ w, p.Holds w →
        (do
          p.finish ⟨number, (ScheduledPipeline.handleRun ended).1⟩
          ofExcept handled
          ret true : LoopProgram Bool).Safe p.leaseProtocol.contract
          (fun _ _ w => p.Stands .free w) (fun _ _ w => p.Left w) w₀ w := by
      intro handled w₀ w hw
      rw [safe_bind, ScheduledPipeline.finish, safe_bind, safe_modify, safe_bind]
      have happended : p.Holds (w.write (ScheduledPipeline.appendHistory
          ⟨number, (ScheduledPipeline.handleRun ended).1⟩ w.state)) := hw
      refine (safe_notifyRunComplete _ happended).mono (fun _ _ w hfree => ?_) fun _ _ _ h => h
      rw [safe_modify]
      cases handled with
      | ok a => exact hfree
      | error e => exact .inl hfree
    rw [safe_bind, safe_attempt]
    exact (ScheduledPipeline.safe_handleRun ended hw).mono (fun _ w₀ w h => hrest _ w₀ w h)
      fun _ w₀ w h => hrest _ w₀ w h
  have hstarted : p.Stands (.granted w.state.runFence)
      (w.write { w.state with runNumber := w.state.runNumber + 1 }) := hw
  exact (ScheduledPipeline.safe_runBuilt hstarted).mono (fun _ w₀ w h => hfinish _ _ w₀ w h)
    fun _ w₀ w h => hfinish _ _ w₀ w h

/-- One round of the loop returns the lease that it has taken. -/
theorem safe_runOnce (hw : p.Stands .free w) :
    p.runOnce.Safe p.leaseProtocol.contract (fun _ _ w => p.Stands .free w)
      (fun _ _ w => p.Left w) w₀ w := by
  unfold ScheduledPipeline.runOnce
  rw [safe_bind]
  refine (ScheduledPipeline.safe_preRunHook hw).mono (fun go _ w hgo => ?_) fun _ _ _ h => h
  cases go with
  | true => exact safe_runLeased hgo
  | false => exact hgo

/-- So does a turn of the loop. -/
theorem safe_turn (hw : p.Stands .free w) :
    (p.turn ()).Safe p.leaseProtocol.contract (fun _ _ w => p.Stands .free w)
      (fun _ _ w => p.Left w) w₀ w := by
  unfold ScheduledPipeline.turn
  rw [safe_bind]
  refine ScheduledPipeline.safe_other (fun _ => rfl) (.inl rfl) hw fun stopped hw' => ?_
  split
  · exact hw'
  · rw [safe_bind]
    refine (safe_runOnce hw').mono (fun ran _ w hran => ?_) fun _ _ _ h => h
    rw [safe_bind, safe_read]
    split
    · rw [safe_bind]
      unfold ScheduledPipeline.wait
      split
      · rw [safe_bind]
        refine ScheduledPipeline.safe_other (fun r => by cases r <;> rfl) (.inl rfl) hran fun r hr => ?_
        exact ScheduledPipeline.safe_raising (fun _ _ => hr) fun _ _ => .inl hr
      · rw [safe_bind]
        refine ScheduledPipeline.safe_other (fun r => by cases r <;> rfl) (.inl rfl) hran fun r hr => ?_
        exact ScheduledPipeline.safe_raising (fun _ _ => hr) fun _ _ => .inl hr
    · exact hran

/-- The loop keeps to the protocol, and it is left without a lease or with one left behind. -/
theorem safe_run (fuel : ℕ) (hw : p.Stands .free w) :
    (p.run fuel).Safe p.leaseProtocol.contract (fun _ _ w => p.Left w) (fun _ _ w => p.Left w)
      w₀ w := by
  unfold ScheduledPipeline.run
  rw [safe_bind, safe_modify, safe_bind, safe_attempt]
  have hstart : p.Stands .free (w.write { w.state with running := true }) := hw
  refine (safe_iterate trivial (I := fun _ _ w => p.Stands .free w) (fun _ w₀ w h => ?_) fuel
    hstart).mono (fun _ w₀ w (hfree : p.Stands .free w) => ?_) fun e w₀ w (hleft : p.Left w) => ?_
  · refine (safe_turn h).mono (fun r _ w hr => ?_) fun _ _ _ h => h
    cases r <;> exact hr
  · exact .inl hfree
  · rw [safe_bind, safe_modify]
    rcases e with e | _
    · cases e <;> exact hleft
    · exact hleft

end LeasedPipeline

/-! ## What a worker does with a lease -/

/-- The trace of a loop. -/
abbrev LoopTrace : Type := Trace Op Op.Ret Mark

/-- How often the lease was granted. -/
def grants (t : LoopTrace) : ℕ := t.countP fun e => actionOf e = .asked true

/-- How often the lease was released. -/
def releases (t : LoopTrace) : ℕ := t.countP fun e => actionOf e = .released

/-- How often `release_lease` has raised. -/
def unreleased (t : LoopTrace) : ℕ := t.countP fun e => actionOf e = .unreleased

/-- The event is nothing to the lease itself and starts no run. -/
def Untouched (e : Event Op Op.Ret Mark) : Prop :=
  (∀ granted, actionOf e ≠ .asked granted) ∧ (actionOf e ≠ .released ∧ actionOf e ≠ .unreleased) ∧
    ∀ fence, actionOf e ≠ .ran fence

namespace ScheduledPipeline

variable (p : ScheduledPipeline)

/-- The fence after what the coordinator and the built pipeline have told. -/
def bind (fence : Option RunFence) (e : Event Op Op.Ret Mark) : Option RunFence :=
  match actionOf e with
  | .told lease => if p.hasValidateLease then some (p.fenceOf lease) else fence
  | .built takesFence => if takesFence then fence else none
  | _ => fence

/-- The fence that the events since a grant have bound. -/
def boundFence (since : LoopTrace) : Option RunFence := since.foldl p.bind none

/-- The lease was granted, and since then nothing was done with it but binding the fence. -/
def GrantedWith (t : LoopTrace) (fence : Option RunFence) : Prop :=
  ∃ earlier number since, t = earlier ++ .called (.tryAcquireLease number) (.ok true) :: since ∧
    (∀ e ∈ since, Untouched e) ∧ fence = p.boundFence since

/-- What a trace shows of a lease: a run has the lease to itself and the fence of its grant, the lease
is asked for only when every grant so far has been released or its release has raised, and
`release_lease` is never called twice for one grant. -/
structure LeaseDiscipline (t : LoopTrace) : Prop where
  fenced : ∀ before fence r after, t = before ++ .called (.runWithAbort fence) r :: after →
    p.GrantedWith before fence
  asked : ∀ before number r after, t = before ++ .called (.tryAcquireLease number) r :: after →
    grants before = releases before + unreleased before
  balanced : ∀ front, front <+: t → releases front + unreleased front ≤ grants front ∧
    grants front ≤ releases front + unreleased front + 1

/-- The number of leases that are held in a phase. -/
def outstanding : Phase → ℕ
  | .free => 0
  | _ => 1

variable {p} {t : LoopTrace} {phase phase' : Phase} {e : Event Op Op.Ret Mark}

/-- A phase with the lease has one grant outstanding. -/
theorem outstanding_of_held (h : phase.Held) : outstanding phase = 1 := by
  cases phase <;> first | rfl | exact h.elim

/-- What one allowed event does to the number of leases. -/
theorem outstanding_next (h : p.nextPhase phase (actionOf e) = some phase') :
    outstanding phase + (if actionOf e = .asked true then 1 else 0) =
      outstanding phase' + ((if actionOf e = .released then 1 else 0) +
        if actionOf e = .unreleased then 1 else 0) := by
  generalize actionOf e = action at h
  cases move_of_nextPhase h with
  | released held => rw [outstanding_of_held held]; rfl
  | unreleased held => rw [outstanding_of_held held]; rfl
  | left held => rw [outstanding_of_held held]; rfl
  | _ => rfl

/-- The books of the lease: every grant is released, or its release has raised, or it is outstanding. -/
theorem grants_eq (h : p.leaseProtocol.phaseOf t = some phase) :
    grants t = releases t + unreleased t + outstanding phase := by
  refine Protocol.invariant
    (I := fun t phase => grants t = releases t + unreleased t + outstanding phase) rfl ?_ h
  intro t phase e phase' ih hnext
  have hstep := outstanding_next hnext
  simp only [grants, releases, unreleased, List.countP_append, List.countP_singleton, decide_eq_true_eq] at ih ⊢
  omega

/-- A callback is nothing to the lease, or leaves the round. -/
theorem callbackAction_ne {r : Except Exc Unit} {action : Action} (hother : action ≠ .other)
    (hbroken : action ≠ .broken) : callbackAction r ≠ action := by
  rcases r with e | _
  · cases he : e.isException
    · simpa [callbackAction, he] using hbroken.symm
    · simpa [callbackAction, he] using hother.symm
  · exact hother.symm

/-- Only an answer of `try_acquire_lease` grants the lease. -/
theorem eq_tryAcquireLease_of_granted (h : actionOf e = .asked true) :
    ∃ number, e = .called (.tryAcquireLease number) (.ok true) := by
  rcases e with m | ⟨o, r⟩
  · cases m
    exact absurd h (by simp [actionOf])
  · cases o with
    | tryAcquireLease number =>
      rcases r with error | granted
      · exact absurd h (by simp [actionOf])
      · obtain rfl : granted = true := by simpa [actionOf] using h
        exact ⟨number, rfl⟩
    | currentLease => rcases r with _ | _ | _ <;> exact absurd h (by simp [actionOf])
    | build => rcases r with _ | _ <;> exact absurd h (by simp [actionOf])
    | releaseLease => rcases r with _ | _ <;> exact absurd h (by simp [actionOf])
    | onRunComplete record => exact absurd h (callbackAction_ne nofun nofun)
    | observer id record => exact absurd h (callbackAction_ne nofun nofun)
    | _ => exact absurd h (by simp [actionOf])

/-- A grant binds no fence yet. -/
theorem grantedWith_of_granted (h : actionOf e = .asked true) : p.GrantedWith (t ++ [e]) none := by
  obtain ⟨number, rfl⟩ := eq_tryAcquireLease_of_granted h
  exact ⟨t, number, [], rfl, by simp, rfl⟩

/-- Binding the fence keeps the grant. -/
theorem GrantedWith.snoc {fence : Option RunFence} (h : p.GrantedWith t fence) (he : Untouched e) :
    p.GrantedWith (t ++ [e]) (p.bind fence e) := by
  obtain ⟨earlier, number, since, rfl, hsince, rfl⟩ := h
  refine ⟨earlier, number, since ++ [e], by simp, fun e' he' => ?_, ?_⟩
  · rcases List.mem_append.mp he' with he' | he'
    · exact hsince e' he'
    · rwa [List.mem_singleton.mp he']
  · rw [boundFence, boundFence, List.foldl_append]
    rfl

/-- A grant that is outstanding in the phase, with the fence it has bound. -/
def KnowsFence (p : ScheduledPipeline) (t : LoopTrace) : Phase → Prop
  | .granted fence => p.GrantedWith t fence
  | .running fence => p.GrantedWith t fence
  | _ => True

/-- The fence of a phase is one that was bound with its grant. -/
theorem knowsFence (h : p.leaseProtocol.phaseOf t = some phase) : p.KnowsFence t phase := by
  refine Protocol.invariant (A := p.leaseProtocol) (I := p.KnowsFence) trivial ?_ h
  intro t phase e phase' ih hnext
  have hmove : p.Move phase (actionOf e) phase' := move_of_nextPhase hnext
  have hsnoc : ∀ fence fence', p.GrantedWith t fence → Untouched e → p.bind fence e = fence' →
      p.GrantedWith (t ++ [e]) fence' := by
    rintro fence _ hgranted he rfl
    exact hgranted.snoc he
  unfold Untouched bind at hsnoc
  generalize haction : actionOf e = action at hmove hsnoc
  cases hmove with
  | granted => exact grantedWith_of_granted haction
  | bound lease => exact hsnoc _ _ ih (by simp) rfl
  | built takesFence => exact hsnoc _ _ ih (by simp) rfl
  | entered => exact hsnoc _ _ ih (by simp) rfl
  | other resting =>
    cases phase with
    | granted fence => exact hsnoc _ _ ih (by simp) rfl
    | running fence => exact hsnoc _ _ ih (by simp) rfl
    | _ => trivial
  | _ => trivial

/-- The lease is left behind only after an error that leaves the round early. -/
theorem exists_broken (h : p.leaseProtocol.phaseOf t = some phase) :
    phase = .abandoned → ∃ e ∈ t, actionOf e = .broken := by
  refine Protocol.invariant (A := p.leaseProtocol)
    (I := fun t phase => phase = .abandoned → ∃ e ∈ t, actionOf e = .broken) (by simp [leaseProtocol])
    ?_ h
  rintro t phase e phase' - hnext rfl
  refine ⟨e, by simp, ?_⟩
  have hmove : p.Move phase (actionOf e) .abandoned := move_of_nextPhase hnext
  generalize actionOf e = action at hmove ⊢
  cases hmove with
  | left held => rfl
  | other resting => exact absurd resting (by simp [Phase.Held])

/-- What the protocol accepts keeps the discipline. -/
theorem leaseDiscipline_of_accepts (h : p.leaseProtocol.Accepts t) : p.LeaseDiscipline t where
  fenced before fence r after ht := by
    rw [ht] at h
    obtain ⟨phase, phase', hbefore, hnext, -⟩ := h.allowed
    have hknows := knowsFence hbefore
    change p.nextPhase phase (.ran fence) = _ at hnext
    cases phase with
    | running fence' =>
      have hfence : fence = fence' := by
        by_contra hne
        simp [nextPhase, hne] at hnext
      rwa [hfence]
    | _ => exact absurd hnext (by simp [nextPhase])
  asked before number r after ht := by
    rw [ht] at h
    obtain ⟨phase, phase', hbefore, hnext, -⟩ := h.allowed
    have hfree : phase = .free := by
      obtain ⟨granted, hasked⟩ : ∃ granted,
          actionOf (.called (.tryAcquireLease number) r : Event Op Op.Ret Mark) = .asked granted := by
        rcases r with error | granted
        · exact ⟨false, rfl⟩
        · exact ⟨granted, rfl⟩
      change p.nextPhase phase (actionOf _) = _ at hnext
      rw [hasked] at hnext
      cases phase <;> simp_all [nextPhase]
    rw [grants_eq hbefore, hfree]
    rfl
  balanced front hfront := by
    obtain ⟨phase, hphase⟩ := Option.isSome_iff_exists.mp (h.truncate hfront)
    have hbooks := grants_eq hphase
    have hle : outstanding phase ≤ 1 := by cases phase <;> simp [outstanding]
    omega

end ScheduledPipeline

/-- **A leased loop.** Whatever the coordinator, the runs and the callbacks answer or raise, a worker
deals with its lease in order; when its loop is over every grant has been released or its release has
raised, unless an error that is not an `Exception`, or one of `current_lease`, has left one behind. -/
theorem leaseDiscipline_run (p : LeasedPipeline) (fuel : ℕ) (h : Handler Op Op.Ret Mark)
    (s : ScheduledPipelineState) :
    p.LeaseDiscipline ((p.run fuel).run h ⟨s, []⟩).2.trace ∧
      match (p.run fuel).run h ⟨s, []⟩ with
      | (.hung, _) => True
      | (_, w) => grants w.trace = releases w.trace + unreleased w.trace ∨
          grants w.trace = releases w.trace + unreleased w.trace + 1 ∧
            ∃ e ∈ w.trace, actionOf e = .broken := by
  have hfree : p.Stands .free ⟨s, []⟩ := rfl
  have hsafe : (p.run fuel).Safe p.leaseProtocol.contract (fun _ _ w => p.Left w)
      (fun _ _ w => p.Left w) ⟨s, []⟩ ⟨s, []⟩ := LeasedPipeline.safe_run fuel hfree
  obtain ⟨haccepts, hend⟩ := Protocol.accepts_run h rfl hsafe
  refine ⟨ScheduledPipeline.leaseDiscipline_of_accepts haccepts, ?_⟩
  have hleft : ∀ w, p.Left w → grants w.trace = releases w.trace + unreleased w.trace ∨
      grants w.trace = releases w.trace + unreleased w.trace + 1 ∧
        ∃ e ∈ w.trace, actionOf e = .broken := by
    rintro w (hfree | habandoned)
    · exact .inl (ScheduledPipeline.grants_eq hfree)
    · exact .inr ⟨ScheduledPipeline.grants_eq habandoned,
        ScheduledPipeline.exists_broken habandoned rfl⟩
  cases hrun : (p.run fuel).run h ⟨s, []⟩ with
  | mk outcome w =>
    rw [hrun] at hend
    cases outcome with
    | returned a =>
      obtain ⟨-, hw⟩ := hend
      exact hleft w hw
    | raised e =>
      obtain ⟨-, hw⟩ := hend
      exact hleft w hw
    | hung => trivial

end AgoraEtl.Leased
