import AgoraEtl.Lanes.Fencing

/-!
# Runs of one pipeline by several workers

The workers of a fleet share the lease of a pipeline: the coordinator grants it to one worker after the
other, each time with a new fencing token, and confirms a fence only while its token is the last one
granted.  The worker that has lost the lease may still be in the middle of a run, so that the calls of
the runs are interleaved in any order.

A run consists of a lane and its pending-write owner.  When it has been superseded, each of these two
tasks reaches at most one sink or store more, whatever it was doing.
-/

namespace AgoraEtl

open Effect Program

variable {α χ : Type}

/-- One entry of the history of a fleet: a lease is granted, or a task of the run with the token goes
on. -/
inductive FleetEvent (α χ : Type) : Type where
  | granted (token : ℕ)
  | ran (token : ℕ) (turn : Turn) (e : Event (Call α χ) Call.Ret (Mark α χ))

namespace FleetEvent

/-- The event of the run with the token, if it is one. -/
def ofRun (token : ℕ) : FleetEvent α χ → Option (Turn × Event (Call α χ) Call.Ret (Mark α χ))
  | granted _ => none
  | ran token' turn e => if token' = token then some (turn, e) else none

/-- The token that the entry grants. -/
def grants : FleetEvent α χ → Option ℕ
  | granted token => some token
  | ran _ _ _ => none

end FleetEvent

/-- The events of one run, each with the task that left it. -/
def logOf (token : ℕ) (history : List (FleetEvent α χ)) :
    List (Turn × Event (Call α χ) Call.Ret (Mark α χ)) :=
  history.filterMap (FleetEvent.ofRun token)

/-- The token that was granted last. -/
def activeToken (history : List (FleetEvent α χ)) : Option ℕ :=
  (history.filterMap FleetEvent.grants).getLast?

@[simp] theorem logOf_append (token : ℕ) (history history' : List (FleetEvent α χ)) :
    logOf token (history ++ history') = logOf token history ++ logOf token history' :=
  List.filterMap_append

/-- A coordinator whose context has the fence of a lease. -/
def ExecutionCoordinator.withFence (c : ExecutionCoordinator α χ) : ExecutionCoordinator α χ :=
  { c with delivery := { c.delivery with runFence := true } }

variable [DecidableEq α] [DecidableEq χ]

/-- A lane with its fence bound, and its pending-write owner. -/
def ExecutionCoordinator.fencedRun (c : ExecutionCoordinator α χ) (fuel : ℕ) (input : LaneInput α χ) :
    System (Call α χ) Call.Ret (Mark α χ) (RunState input.Objects α χ) Exc Unit :=
  c.withFence.delivery.withOwner fuel (c.withFence.runLane fuel input)

/-- A history of the fleet. -/
structure FleetHistory (history : List (FleetEvent α χ)) : Prop where
  /-- Each run goes through a lane with its fence bound, beside the pending-write owner, and has come
  some way along a schedule of the two. -/
  runs : ∀ token, ∃ (c : ExecutionCoordinator α χ) (fuel : ℕ) (input : LaneInput α χ)
    (h : Environment α χ) (w : RunWorld input.Objects α χ) (turns : List Turn), w.trace = [] ∧
      logOf token history <+: (c.fencedRun fuel input).log h ((c.fencedRun fuel input).start w) turns
  /-- `validate_lease` is authoritative: it confirms the active token only. -/
  authoritative : ∀ before token turn after, history = before ++ .ran token turn fenceConfirmed :: after →
    activeToken before = some token
  /-- Every lease has a token of its own. -/
  fresh : (history.filterMap FleetEvent.grants).Nodup

omit [DecidableEq α] [DecidableEq χ] in
/-- After a grant the active token is the one granted, or one granted later. -/
theorem activeToken_append_granted (before after : List (FleetEvent α χ)) (token : ℕ) :
    ∃ token' ∈ token :: after.filterMap FleetEvent.grants,
      activeToken (before ++ .granted token :: after) = some token' := by
  refine ⟨_, List.getLast_mem (List.cons_ne_nil _ _), ?_⟩
  have hgrants : (FleetEvent.granted token :: after).filterMap FleetEvent.grants =
      token :: after.filterMap FleetEvent.grants := rfl
  rw [activeToken, List.filterMap_append, hgrants,
    List.getLast?_append_of_ne_nil _ (List.cons_ne_nil _ _), List.getLast?_eq_some_getLast]

/-- A superseded token is never confirmed again. -/
theorem FleetHistory.not_confirmed {before after : List (FleetEvent α χ)} {token token' : ℕ}
    (hfleet : FleetHistory (before ++ .granted token' :: after)) (hheld : .granted token ∈ before)
    (turn : Turn) : (turn, fenceConfirmed) ∉ logOf token after := by
  intro hmem
  obtain ⟨entry, hentry, hevent⟩ := List.mem_filterMap.mp hmem
  have hran : entry = .ran token turn fenceConfirmed := by
    cases entry with
    | granted t => exact absurd hevent (by simp [FleetEvent.ofRun])
    | ran t turn' e =>
      by_cases ht : t = token
      · simpa [FleetEvent.ofRun, ht] using hevent
      · exact absurd hevent (by simp [FleetEvent.ofRun, ht])
  obtain ⟨earlier, later, rfl⟩ := List.append_of_mem (hran ▸ hentry)
  have hactive := hfleet.authoritative (before ++ .granted token' :: earlier) token turn later (by simp)
  obtain ⟨active, hin, hsome⟩ := activeToken_append_granted before earlier token'
  obtain rfl : active = token := Option.some.inj (hsome.symm.trans hactive)
  have hfresh := hfleet.fresh
  rw [List.filterMap_append] at hfresh
  refine (List.nodup_append.mp hfresh).2.2 active (List.mem_filterMap.mpr ⟨_, hheld, rfl⟩) active ?_
    rfl
  rcases List.mem_cons.mp hin with rfl | hin
  · exact List.mem_cons_self
  · refine List.mem_cons_of_mem _ ?_
    rw [List.filterMap_append]
    exact List.mem_append_left _ hin

/-- The owner of the run with token 1 has just confirmed its fence. -/
def beforeTakeover : List (FleetEvent ℕ ℕ) :=
  .granted 1 :: beforeLoss.map fun (turn, e) => .ran 1 turn e

/-- It writes its record although the lease has been granted again. -/
def afterTakeover : List (FleetEvent ℕ ℕ) :=
  afterConfirmation.map fun (turn, e) => .ran 1 turn e

theorem fleetHistory_takeover : FleetHistory (beforeTakeover ++ .granted 2 :: afterTakeover) where
  runs token := by
    refine ⟨fencedCoordinator, 5, .linear [fencedRecord], confirmedOnce, ⟨RunState.initial [] none, []⟩,
      [.main, .helper, .helper, .helper, .helper, .helper, .main], rfl, ?_⟩
    by_cases htoken : token = 1
    · subst htoken
      exact ⟨[], rfl⟩
    · have hnil : logOf token (beforeTakeover ++ .granted 2 :: afterTakeover) = [] := by
        simp [logOf, beforeTakeover, afterTakeover, beforeLoss, afterConfirmation, FleetEvent.ofRun,
          Ne.symm htoken]
      rw [hnil]
      exact List.nil_prefix
  authoritative before token turn after h := by
    obtain ⟨rfl, ⟨rfl, rfl⟩, -⟩ : before = beforeTakeover.take 5 ∧ (token = 1 ∧ turn = .helper) ∧
        after = .granted 2 :: afterTakeover := by
      simpa [beforeTakeover, afterTakeover, beforeLoss, afterConfirmation, List.cons_eq_append_iff,
        fenceConfirmed] using h
    rfl
  fresh := by decide

end AgoraEtl
