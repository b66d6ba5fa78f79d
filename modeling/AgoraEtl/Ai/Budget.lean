import AgoraEtl.Effect.Runs
import Mathlib.Algebra.Order.Ring.Rat
import Mathlib.Algebra.BigOperators.Group.List.Basic
import Mathlib.Tactic.MkIffOfInductiveProp
import Mathlib.Algebra.GroupWithZero.Nat

/-!
# The AI budget of a run

A call of the provider is checked against the budget with an estimate before it is made, and with the
tokens of the response after it.  The usage of the run is added up after the second check, which may
raise; and it is reset by `AIMiddleware.on_start`, which `AIBatchMiddleware` overrides.

`budget_iff` says in which runs the recorded usage is the sum of all responses.
-/

namespace AgoraEtl.Budget

/-! ### Governance -/

/-- Per-1K-token price for one model. -/
structure AICostRate where
  inputPer1kUsd : ℚ
  outputPer1kUsd : ℚ
  deriving DecidableEq

def AICostRate.estimateUsd (rate : AICostRate) (inputTokens outputTokens : ℕ) : ℚ :=
  (inputTokens : ℚ) / 1000 * rate.inputPer1kUsd + (outputTokens : ℚ) / 1000 * rate.outputPer1kUsd

inductive Scope where
  | record
  | run
  deriving DecidableEq

/-- Token and cost budget for completion-backed AI middleware calls. -/
structure AIBudgetPolicy where
  maxInputTokens : Option ℕ := none
  maxOutputTokens : Option ℕ := none
  maxTotalTokens : Option ℕ := none
  maxCostUsd : Option ℚ := none
  maxCostUsd_nonneg : ∀ limit ∈ maxCostUsd, 0 ≤ limit := by simp
  scope : Scope := .record

/-- Mutable run-scoped budget usage tracked by one middleware instance. -/
structure AIBudgetUsage where
  inputTokens : ℕ := 0
  outputTokens : ℕ := 0
  costUsd : ℚ := 0
  deriving DecidableEq

def AIBudgetUsage.totalTokens (usage : AIBudgetUsage) : ℕ := usage.inputTokens + usage.outputTokens

/-- A number of tokens and a cost. -/
def AIBudgetUsage.add (usage : AIBudgetUsage) (inputTokens outputTokens : ℕ) (costUsd : ℚ) :
    AIBudgetUsage :=
  ⟨usage.inputTokens + inputTokens, usage.outputTokens + outputTokens, usage.costUsd + costUsd⟩

/-- `AIBudgetExceededError`, by the check that raises it. -/
inductive AIBudgetExceeded where
  | inputTokens (estimated : Bool) (effective limit : ℕ)
  | outputTokens (estimated : Bool) (effective limit : ℕ)
  | totalTokens (estimated : Bool) (effective limit : ℕ)
  | costUsd (estimated : Bool) (effective limit : ℚ)
  | noCatalog
  | noRate (model : String)
  deriving DecidableEq

/-- `estimate_prompt_tokens`: a quarter of the characters of the joined parts that are not empty, rounded
up. -/
def estimatePromptTokens (parts : List (Option String)) : ℕ :=
  let text := String.intercalate "\n" (parts.filterMap fun part => part.filter (· ≠ ""))
  if text = "" then 0 else max 1 ((text.length + 3) / 4)

/-! ### The middleware -/

/-- The class of the middleware, as far as `on_start` goes. -/
inductive MiddlewareClass where
  | aiMiddleware
  | aiBatchMiddleware
  deriving DecidableEq

/-- An AI middleware with a budget. -/
structure AIMiddleware where
  cls : MiddlewareClass
  budgetPolicy : AIBudgetPolicy
  costCatalog : Option (String → Option AICostRate)
  model : String

/-- What a provider returns, as far as the budget goes. -/
structure CompletionResponse where
  model : String
  inputTokens : ℕ
  outputTokens : ℕ
  deriving DecidableEq

namespace AIMiddleware

variable (m : AIMiddleware)

/-- `on_start` of the class. -/
def onStart (usage : AIBudgetUsage) : AIBudgetUsage :=
  match m.cls with
  | .aiMiddleware => if m.budgetPolicy.scope = .run then {} else usage
  | .aiBatchMiddleware => usage

/-- `_estimate_cost_usd`. -/
def estimateCostUsd (model : String) (inputTokens outputTokens : ℕ) : Except AIBudgetExceeded ℚ :=
  if m.budgetPolicy.maxCostUsd = none then .ok 0
  else match m.costCatalog with
    | none => .error .noCatalog
    | some rates =>
      match rates model with
      | none => .error (.noRate model)
      | some rate => .ok (rate.estimateUsd inputTokens outputTokens)

/-- `_check_budget`, with the cost that is estimated for the tokens. -/
def checkBudget (usage : AIBudgetUsage) (inputTokens outputTokens : ℕ) (estimated : Bool)
    (costUsd : ℚ) : Except AIBudgetExceeded Unit :=
  let policy := m.budgetPolicy
  let effective : AIBudgetUsage :=
    (if policy.scope = .run then usage else {}).add inputTokens outputTokens costUsd
  match policy.maxInputTokens.filter (· < effective.inputTokens),
    policy.maxOutputTokens.filter (· < effective.outputTokens),
    policy.maxTotalTokens.filter (· < effective.totalTokens),
    policy.maxCostUsd.filter (· < effective.costUsd) with
  | some limit, _, _, _ => .error (.inputTokens estimated effective.inputTokens limit)
  | none, some limit, _, _ => .error (.outputTokens estimated effective.outputTokens limit)
  | none, none, some limit, _ => .error (.totalTokens estimated effective.totalTokens limit)
  | none, none, none, some limit => .error (.costUsd estimated effective.costUsd limit)
  | none, none, none, none => .ok ()

/-- `_enforce_budget_preflight`. -/
def enforceBudgetPreflight (usage : AIBudgetUsage) (prompt : String) (system : Option String)
    (maxTokens : ℤ) : Except AIBudgetExceeded Unit := do
  let inputTokens := estimatePromptTokens [system, some prompt]
  let costUsd ← m.estimateCostUsd m.model inputTokens maxTokens.toNat
  m.checkBudget usage inputTokens maxTokens.toNat true costUsd

/-- `_record_budget_usage`: the usage after the response, if nothing raises. -/
def recordBudgetUsage (usage : AIBudgetUsage) (response : CompletionResponse) :
    Except AIBudgetExceeded AIBudgetUsage := do
  let costUsd ← m.estimateCostUsd response.model response.inputTokens response.outputTokens
  m.checkBudget usage response.inputTokens response.outputTokens false costUsd
  if m.budgetPolicy.scope = .run then
    pure (usage.add response.inputTokens response.outputTokens costUsd)
  else pure usage

end AIMiddleware

/-! ### Runs -/

/-- The recorded usage, the calls that wait for the provider, and the responses that were received since
the run's `on_start`. -/
structure World where
  usage : AIBudgetUsage
  inFlight : List ℕ
  received : List CompletionResponse
  deriving DecidableEq

/-- A run starts; `_cached_complete` is called and goes up to the provider, with whether the cache has the
answer; the provider answers a call, or raises. -/
inductive Event where
  | start
  | call (id : ℕ) (cached : Bool) (prompt : String) (system : Option String) (maxTokens : ℤ)
  | respond (id : ℕ) (response : CompletionResponse)
  | fail (id : ℕ)

namespace World

variable (m : AIMiddleware)

def init : World := ⟨{}, [], []⟩

def next (w : World) : Event → Option World
  | .start => some { w with usage := m.onStart w.usage, received := [] }
  | .call id cached prompt system maxTokens =>
    if cached then some w
    else match m.enforceBudgetPreflight w.usage prompt system maxTokens with
      | .ok () => some { w with inFlight := id :: w.inFlight }
      | .error _ => some w
  | .respond id response =>
    if id ∈ w.inFlight then
      some {
        usage := match m.recordBudgetUsage w.usage response with
          | .ok usage => usage
          | .error _ => w.usage
        inFlight := w.inFlight.erase id
        received := w.received ++ [response] }
    else none
  | .fail id => if id ∈ w.inFlight then some { w with inFlight := w.inFlight.erase id } else none

def Step (w : World) (event : Event) (w' : World) : Prop := w.next m event = some w'

/-! ### What a run is held to -/

/-- The cost of a response under the policy; an unpriced response counts as free. -/
def costOf (response : CompletionResponse) : ℚ :=
  (m.estimateCostUsd response.model response.inputTokens response.outputTokens).toOption.getD 0

/-- The recorded usage is the sum of all responses received since the run started. -/
structure Correct (w : World) : Prop where
  inputTokens : w.usage.inputTokens = (w.received.map CompletionResponse.inputTokens).sum
  outputTokens : w.usage.outputTokens = (w.received.map CompletionResponse.outputTokens).sum
  costUsd : w.usage.costUsd = (w.received.map (costOf m)).sum

/-- The usage is within all configured maxima. -/
@[mk_iff]
structure Within (policy : AIBudgetPolicy) (usage : AIBudgetUsage) : Prop where
  inputTokens : ∀ limit ∈ policy.maxInputTokens, usage.inputTokens ≤ limit
  outputTokens : ∀ limit ∈ policy.maxOutputTokens, usage.outputTokens ≤ limit
  totalTokens : ∀ limit ∈ policy.maxTotalTokens, usage.totalTokens ≤ limit
  costUsd : ∀ limit ∈ policy.maxCostUsd, usage.costUsd ≤ limit

/-- A call that would reach the provider is rejected if the recorded usage exceeds a maximum. -/
def Rejects (w : World) : Event → Prop
  | .call _ false prompt system maxTokens => ¬ Within m.budgetPolicy w.usage →
      ∃ e, m.enforceBudgetPreflight w.usage prompt system maxTokens = .error e
  | _ => True

/-- The recorded usage is right after the event, and the call is rejected if it must be. -/
def Safe (w : World) (event : Event) (w' : World) : Prop := w'.Correct m ∧ w.Rejects m event

/-- A response is priced and keeps the usage within the maxima, or it adds nothing; and a run is started
by a class that resets the usage, or there is none. -/
def Meets (w : World) : Event → Prop
  | .start => m.cls = .aiMiddleware ∨ w.usage = {}
  | .respond _ response =>
    (∃ costUsd, m.estimateCostUsd response.model response.inputTokens response.outputTokens =
        .ok costUsd ∧
      Within m.budgetPolicy (w.usage.add response.inputTokens response.outputTokens costUsd)) ∨
    (response.inputTokens = 0 ∧ response.outputTokens = 0 ∧ costOf m response = 0)
  | _ => True

section Checks

variable {m}

theorem filter_lt_eq_none_iff {α : Type} [LinearOrder α] {limit : Option α} {x : α} :
    limit.filter (fun l => decide (l < x)) = none ↔ ∀ l ∈ limit, x ≤ l := by
  rw [Option.filter_eq_none_iff]
  refine forall₂_congr fun l _ => ?_
  rw [decide_eq_true_iff, not_lt]

theorem checkBudget_eq_ok_iff (hscope : m.budgetPolicy.scope = .run) (usage : AIBudgetUsage)
    (inputTokens outputTokens : ℕ) (estimated : Bool) (costUsd : ℚ) :
    m.checkBudget usage inputTokens outputTokens estimated costUsd = .ok () ↔
      Within m.budgetPolicy (usage.add inputTokens outputTokens costUsd) := by
  rw [within_iff, ← filter_lt_eq_none_iff, ← filter_lt_eq_none_iff, ← filter_lt_eq_none_iff,
    ← filter_lt_eq_none_iff]
  unfold AIMiddleware.checkBudget
  dsimp only
  rw [if_pos hscope]
  generalize m.budgetPolicy.maxInputTokens.filter _ = inputLimit
  generalize m.budgetPolicy.maxOutputTokens.filter _ = outputLimit
  generalize m.budgetPolicy.maxTotalTokens.filter _ = totalLimit
  generalize m.budgetPolicy.maxCostUsd.filter _ = costLimit
  cases inputLimit with
  | some limit => exact ⟨nofun, fun h => nomatch h.1⟩
  | none =>
    cases outputLimit with
    | some limit => exact ⟨nofun, fun h => nomatch h.2.1⟩
    | none =>
      cases totalLimit with
      | some limit => exact ⟨nofun, fun h => nomatch h.2.2.1⟩
      | none =>
        cases costLimit with
        | some limit => exact ⟨nofun, fun h => nomatch h.2.2.2⟩
        | none => exact ⟨fun _ => ⟨rfl, rfl, rfl, rfl⟩, fun _ => rfl⟩

/-- A response is recorded exactly if it is priced and the usage stays within the maxima. -/
theorem recordBudgetUsage_eq_ok_iff (hscope : m.budgetPolicy.scope = .run) {usage usage' : AIBudgetUsage}
    {response : CompletionResponse} :
    m.recordBudgetUsage usage response = .ok usage' ↔
      ∃ costUsd, m.estimateCostUsd response.model response.inputTokens response.outputTokens =
          .ok costUsd ∧
        Within m.budgetPolicy (usage.add response.inputTokens response.outputTokens costUsd) ∧
        usage' = usage.add response.inputTokens response.outputTokens costUsd := by
  unfold AIMiddleware.recordBudgetUsage
  cases m.estimateCostUsd response.model response.inputTokens response.outputTokens with
  | error e => exact ⟨nofun, fun ⟨_, h, _⟩ => nomatch h⟩
  | ok costUsd =>
    have hcheck := checkBudget_eq_ok_iff hscope usage response.inputTokens response.outputTokens
      false costUsd
    change (m.checkBudget usage response.inputTokens response.outputTokens false costUsd >>= fun _ => _) =
      _ ↔ _
    cases hrun : m.checkBudget usage response.inputTokens response.outputTokens false costUsd with
    | error e =>
      rw [hrun] at hcheck
      refine ⟨nofun, ?_⟩
      rintro ⟨costUsd', hcost, hwithin, -⟩
      cases hcost
      cases hcheck.mpr hwithin
    | ok u =>
      rw [hrun] at hcheck
      change (if m.budgetPolicy.scope = .run then _ else _) = _ ↔ _
      rw [if_pos hscope]
      constructor
      · intro h
        exact ⟨costUsd, rfl, hcheck.mp rfl, (Except.ok.inj h).symm⟩
      · rintro ⟨costUsd', hcost, -, rfl⟩
        cases hcost
        rfl

end Checks

section Steps

variable {m} {w w' : World}

/-- The recorded usage is right and within the maxima. -/
structure Inv (m : AIMiddleware) (w : World) : Prop where
  correct : w.Correct m
  within : Within m.budgetPolicy w.usage

theorem inv_init : init.Inv m where
  correct := ⟨rfl, rfl, rfl⟩
  within := by
    refine ⟨fun _ _ => Nat.zero_le _, fun _ _ => Nat.zero_le _, fun _ _ => Nat.zero_le _, ?_⟩
    exact m.budgetPolicy.maxCostUsd_nonneg

theorem rejects_of_within (h : Within m.budgetPolicy w.usage) (event : Event) : w.Rejects m event := by
  cases event with
  | call id cached prompt system maxTokens =>
    cases cached with
    | true => trivial
    | false => exact fun hexceeds => absurd h hexceeds
  | _ => trivial

/-- The usage after a response that is received. -/
theorem usage_of_response (hscope : m.budgetPolicy.scope = .run) (usage : AIBudgetUsage)
    (response : CompletionResponse) :
    (∃ costUsd, m.estimateCostUsd response.model response.inputTokens response.outputTokens =
          .ok costUsd ∧ costOf m response = costUsd ∧
        Within m.budgetPolicy (usage.add response.inputTokens response.outputTokens costUsd) ∧
        m.recordBudgetUsage usage response =
          .ok (usage.add response.inputTokens response.outputTokens costUsd)) ∨
    ((¬ ∃ costUsd, m.estimateCostUsd response.model response.inputTokens response.outputTokens =
          .ok costUsd ∧
        Within m.budgetPolicy (usage.add response.inputTokens response.outputTokens costUsd)) ∧
      ∃ e, m.recordBudgetUsage usage response = .error e) := by
  cases hrecord : m.recordBudgetUsage usage response with
  | ok usage' =>
    obtain ⟨costUsd, hcost, hwithin, rfl⟩ := (recordBudgetUsage_eq_ok_iff hscope).mp hrecord
    refine .inl ⟨costUsd, hcost, ?_, hwithin, rfl⟩
    rw [costOf, hcost]
    rfl
  | error e =>
    refine .inr ⟨?_, e, rfl⟩
    rintro ⟨costUsd, hcost, hwithin⟩
    have hok := (recordBudgetUsage_eq_ok_iff hscope).mpr ⟨costUsd, hcost, hwithin, rfl⟩
    rw [hrecord] at hok
    cases hok

/-- With one more response, the sums grow by it. -/
theorem correct_append_iff (h : w.Correct m) {usage : AIBudgetUsage} {inFlight : List ℕ}
    {response : CompletionResponse} :
    (⟨usage, inFlight, w.received ++ [response]⟩ : World).Correct m ↔
      usage = w.usage.add response.inputTokens response.outputTokens (costOf m response) := by
  obtain ⟨input, output, cost⟩ := usage
  have hsum : ∀ {M : Type} [AddMonoid M] (f : CompletionResponse → M),
      ((w.received ++ [response]).map f).sum = (w.received.map f).sum + f response := by
    intro M _ f
    rw [List.map_append, List.sum_append, List.map_singleton, List.sum_singleton]
  unfold AIBudgetUsage.add
  rw [AIBudgetUsage.mk.injEq, h.inputTokens, h.outputTokens, h.costUsd]
  constructor
  · rintro ⟨hinput, houtput, hcost⟩
    exact ⟨hinput.trans (hsum _), houtput.trans (hsum _), hcost.trans (hsum _)⟩
  · rintro ⟨hinput, houtput, hcost⟩
    exact ⟨hinput.trans (hsum _).symm, houtput.trans (hsum _).symm, hcost.trans (hsum _).symm⟩

theorem add_eq_self_iff {usage : AIBudgetUsage} {inputTokens outputTokens : ℕ} {costUsd : ℚ} :
    usage = usage.add inputTokens outputTokens costUsd ↔
      inputTokens = 0 ∧ outputTokens = 0 ∧ costUsd = 0 := by
  obtain ⟨input, output, cost⟩ := usage
  unfold AIBudgetUsage.add
  rw [AIBudgetUsage.mk.injEq]
  simp

theorem Correct.congr (h : w.Correct m) (husage : w'.usage = w.usage)
    (hreceived : w'.received = w.received) : w'.Correct m := by
  obtain ⟨hinput, houtput, hcost⟩ := h
  constructor
  · rw [husage, hreceived, hinput]
  · rw [husage, hreceived, houtput]
  · rw [husage, hreceived, hcost]

/-- A call changes neither the usage nor the responses, whether it is answered by the cache, rejected or
sent to the provider. -/
theorem unchanged_of_call {id : ℕ} {cached : Bool} {prompt : String} {system : Option String}
    {maxTokens : ℤ} (hstep : Step m w (.call id cached prompt system maxTokens) w') :
    w'.usage = w.usage ∧ w'.received = w.received := by
  unfold Step World.next at hstep
  dsimp only at hstep
  split at hstep
  · obtain rfl := Option.some.inj hstep
    exact ⟨rfl, rfl⟩
  · split at hstep
    · obtain rfl := Option.some.inj hstep
      exact ⟨rfl, rfl⟩
    · obtain rfl := Option.some.inj hstep
      exact ⟨rfl, rfl⟩

theorem unchanged_of_fail {id : ℕ} (hstep : Step m w (.fail id) w') :
    w'.usage = w.usage ∧ w'.received = w.received := by
  obtain ⟨-, hnext⟩ := Option.ite_none_right_eq_some.mp hstep
  obtain rfl := Option.some.inj hnext
  exact ⟨rfl, rfl⟩

/-- From a right usage, an event leads to a right usage exactly if it meets the condition. -/
theorem correct_iff_meets (hscope : m.budgetPolicy.scope = .run) (h : w.Inv m) {event : Event}
    (hstep : Step m w event w') : w'.Correct m ↔ w.Meets m event := by
  cases event with
  | start =>
    obtain rfl := Option.some.inj hstep
    unfold AIMiddleware.onStart Meets
    cases hcls : m.cls with
    | aiMiddleware =>
      dsimp only
      rw [if_pos hscope]
      exact iff_of_true ⟨rfl, rfl, rfl⟩ (.inl rfl)
    | aiBatchMiddleware =>
      constructor
      · rintro ⟨hinput, houtput, hcost⟩
        refine .inr ?_
        cases husage : w.usage with
        | mk input output cost =>
          rw [husage] at hinput houtput hcost
          exact congr (congr (congrArg AIBudgetUsage.mk hinput) houtput) hcost
      · rintro (hother | hzero)
        · cases hother
        · dsimp only
          rw [hzero]
          exact ⟨rfl, rfl, rfl⟩
  | call id cached prompt system maxTokens =>
    have hunchanged := unchanged_of_call hstep
    exact iff_of_true (h.correct.congr hunchanged.1 hunchanged.2) trivial
  | fail id =>
    have hunchanged := unchanged_of_fail hstep
    exact iff_of_true (h.correct.congr hunchanged.1 hunchanged.2) trivial
  | respond id response =>
    obtain ⟨-, hnext⟩ := Option.ite_none_right_eq_some.mp hstep
    obtain rfl := Option.some.inj hnext
    rw [correct_append_iff h.correct]
    unfold Meets
    obtain ⟨costUsd, hcost, hcostOf, hwithin, hrecord⟩ | ⟨hfails, e, hrecord⟩ :=
      usage_of_response hscope w.usage response
    · rw [hrecord, hcostOf]
      exact iff_of_true rfl (.inl ⟨costUsd, hcost, hwithin⟩)
    · rw [hrecord]
      exact add_eq_self_iff.trans ⟨.inr, fun hmeets => hmeets.resolve_left hfails⟩

/-- The recorded usage stays within the maxima, whatever happens. -/
theorem within_next (hscope : m.budgetPolicy.scope = .run) (h : Within m.budgetPolicy w.usage)
    {event : Event} (hstep : Step m w event w') : Within m.budgetPolicy w'.usage := by
  cases event with
  | start =>
    obtain rfl := Option.some.inj hstep
    unfold AIMiddleware.onStart
    cases m.cls with
    | aiMiddleware =>
      dsimp only
      rw [if_pos hscope]
      exact inv_init.within
    | aiBatchMiddleware => exact h
  | call id cached prompt system maxTokens =>
    rw [(unchanged_of_call hstep).1]
    exact h
  | fail id =>
    rw [(unchanged_of_fail hstep).1]
    exact h
  | respond id response =>
    obtain ⟨-, hnext⟩ := Option.ite_none_right_eq_some.mp hstep
    obtain rfl := Option.some.inj hnext
    obtain ⟨costUsd, -, -, hwithin, hrecord⟩ | ⟨-, e, hrecord⟩ :=
      usage_of_response hscope w.usage response
    · rw [hrecord]
      exact hwithin
    · rw [hrecord]
      exact h

end Steps

/-- The recorded usage is the sum of all responses since the run started, and calls are rejected once it
exceeds a maximum, exactly in the runs in which every response is priced and keeps the usage within the
maxima (or adds nothing), and the class resets the usage whenever there is some at a start. -/
theorem budget_iff (hscope : m.budgetPolicy.scope = .run) (events : List Event) (w : World) :
    Effect.Runs (fun w event w' => Step m w event w' ∧ Safe m w event w') init events w ↔
      Effect.Runs (fun w event w' => Step m w event w' ∧ Meets m w event) init events w := by
  refine Effect.Runs.iff_of_invariant (I := Inv m) inv_init (fun w event w' h hstep => ?_)
    fun w event w' h hstep hmeets => ?_
  · rw [← correct_iff_meets hscope h hstep]
    exact and_iff_left (rejects_of_within h.within event)
  · exact ⟨(correct_iff_meets hscope h hstep).mpr hmeets, within_next hscope h.within hstep⟩

/-- A budget of ten tokens for the run. -/
def tenTokens (cls : MiddlewareClass) : AIMiddleware where
  cls := cls
  budgetPolicy := { maxTotalTokens := some 10, scope := .run }
  costCatalog := none
  model := "small"

/-- A call, its response of five tokens, and another call: the response meets the condition, so that it
is recorded. -/
theorem budget_iff_tenTokens :
    Effect.Runs (fun w event w' => Step (tenTokens .aiMiddleware) w event w' ∧
        Safe (tenTokens .aiMiddleware) w event w') init
      [.start, .call 0 false "" none 5, .respond 0 ⟨"small", 2, 3⟩, .call 1 false "" none 4]
      ⟨⟨2, 3, 0⟩, [1], [⟨"small", 2, 3⟩]⟩ := by
  refine (budget_iff (tenTokens .aiMiddleware) rfl _ _).mpr ?_
  have hcall : Step (tenTokens .aiMiddleware) init (.call 0 false "" none 5) ⟨{}, [0], []⟩ := by
    unfold Step
    decide
  have hrespond : Step (tenTokens .aiMiddleware) ⟨{}, [0], []⟩ (.respond 0 ⟨"small", 2, 3⟩)
      ⟨⟨2, 3, 0⟩, [], [⟨"small", 2, 3⟩]⟩ := by
    unfold Step
    decide +kernel
  have hagain : Step (tenTokens .aiMiddleware) ⟨⟨2, 3, 0⟩, [], [⟨"small", 2, 3⟩]⟩
      (.call 1 false "" none 4) ⟨⟨2, 3, 0⟩, [1], [⟨"small", 2, 3⟩]⟩ := by
    unfold Step
    decide
  have hwithin : Within (tenTokens .aiMiddleware).budgetPolicy ⟨0 + 2, 0 + 3, 0 + 0⟩ := by
    refine ⟨nofun, nofun, fun limit hlimit => ?_, nofun⟩
    cases hlimit
    decide
  have hstart : Effect.Runs (fun w event w' => Step (tenTokens .aiMiddleware) w event w' ∧
      Meets (tenTokens .aiMiddleware) w event) init [.start] init := .snoc .start ⟨rfl, .inl rfl⟩
  have hfirst := (hstart.snoc ⟨hcall, trivial⟩).snoc ⟨hrespond, .inl ⟨0, rfl, hwithin⟩⟩
  exact hfirst.snoc ⟨hagain, trivial⟩

/-- A response of twenty tokens is not recorded; and the five tokens of a run are still counted in the
next run of a batch middleware. -/
theorem not_correct_tenTokens :
    (∃ w, Effect.Runs (Step (tenTokens .aiMiddleware)) init
        [.start, .call 0 false "" none 5, .respond 0 ⟨"small", 15, 5⟩] w ∧
      ¬ Correct (tenTokens .aiMiddleware) w) ∧
    ∃ w, Effect.Runs (Step (tenTokens .aiBatchMiddleware)) init
        [.start, .call 0 false "" none 5, .respond 0 ⟨"small", 2, 3⟩, .start] w ∧
      ¬ Correct (tenTokens .aiBatchMiddleware) w := by
  refine ⟨⟨⟨{}, [], [⟨"small", 15, 5⟩]⟩, Effect.Runs.of_foldlM (by decide), fun h => ?_⟩,
    ⟨⟨2, 3, 0⟩, [], []⟩, Effect.Runs.of_foldlM (by decide +kernel), fun h => ?_⟩
  · exact absurd h.inputTokens (by decide)
  · exact absurd h.inputTokens (by decide)

end World

end AgoraEtl.Budget
