import AgoraEtl.Sinks.RouterAgreement
import Mathlib.Data.List.Count

/-!
# Opening, flushing and closing the sinks of a writer

A `SinkFanOut` calls its sinks one after the other or, with concurrent writes, all of them; a
`SinkRouter` calls each sink of its routes once, one after the other.  What matters here is which
calls are made and which one's exception leaves the writer, so sinks are known by their identities,
and a call by its operation and its sink.
-/

namespace AgoraEtl

variable {T : Type}

/-- The operations of a sink around its writes. -/
inductive Operation : Type where
  | opens
  | flush
  | close
  deriving DecidableEq

/-- The call of an operation of a sink. -/
structure SinkCall : Type where
  operation : Operation
  sink : ℕ
  deriving DecidableEq

/-- The calls that were made, in order, and the one whose exception was raised. -/
structure CallsMade : Type where
  calls : List SinkCall
  raised : Option SinkCall
  deriving DecidableEq

/-- What `open` of a writer does: its calls, and the flag `_open_rolled_back` after it. -/
structure OpenMade : Type extends CallsMade where
  openRolledBack : Bool
  deriving DecidableEq

section Calls

variable (raises : SinkCall → Bool)

/-- Call an operation of the sinks in order, up to the first call that raises. -/
def callInTurn (operation : Operation) : List ℕ → CallsMade
  | [] => ⟨[], none⟩
  | sink :: sinks =>
    if raises ⟨operation, sink⟩ then ⟨[⟨operation, sink⟩], some ⟨operation, sink⟩⟩
    else
      let rest := callInTurn operation sinks
      ⟨⟨operation, sink⟩ :: rest.calls, rest.raised⟩

/-- Open the sinks in order, up to the first that raises, and note the opened ones. -/
def openInTurn : List ℕ → List ℕ → CallsMade × List ℕ
  | opened, [] => (⟨[], none⟩, opened)
  | opened, sink :: sinks =>
    if raises ⟨.opens, sink⟩ then (⟨[⟨.opens, sink⟩], some ⟨.opens, sink⟩⟩, opened)
    else
      let rest := openInTurn (opened ++ [sink]) sinks
      (⟨⟨.opens, sink⟩ :: rest.1.calls, rest.1.raised⟩, rest.2)

/-- The exceptions of calls that are all made, in the order of the calls. -/
def errorsOf (calls : List SinkCall) : List SinkCall := calls.filter raises

/-- `_close_opened_sinks`. -/
def closeOpenedSinks (opened : List ℕ) : CallsMade :=
  let calls := opened.reverse.map (SinkCall.mk .close)
  ⟨calls, (errorsOf raises calls).head?⟩

/-- `open` where the sinks are opened in order, which is the same in both writers. -/
def openSequentially (sinks : List ℕ) : OpenMade :=
  let (made, opened) := openInTurn raises [] sinks
  match made.raised with
  | none => ⟨made, false⟩
  | some failed =>
    -- an exception of the rollback takes the place of the one that is re-raised after it
    let closed := closeOpenedSinks raises opened
    ⟨⟨made.calls ++ closed.calls, some (closed.raised.getD failed)⟩, true⟩

end Calls

/-- A `SinkFanOut` by the identities of its sinks. -/
structure FanOutSinks : Type where
  sinks : List ℕ
  sinks_ne_nil : sinks ≠ []
  concurrentWrites : Bool
  maxConcurrency : Option ℤ

namespace FanOutSinks

variable (f : FanOutSinks) (raises : SinkCall → Bool)

/-- `_run_sink_calls`: the calls that raise are kept as results.  With one call at a time or with more,
all calls are made, and they start in order. -/
def runSinkCalls (operation : Operation) : List SinkCall × List SinkCall :=
  let calls := f.sinks.map (SinkCall.mk operation)
  (calls, errorsOf raises calls)

/-- `SinkFanOut.open`. -/
def openSinks : OpenMade :=
  if f.concurrentWrites then
    let (calls, errors) := f.runSinkCalls raises .opens
    match errors.head? with
    | none => ⟨⟨calls, none⟩, false⟩
    | some first =>
      let opened := f.sinks.filter fun sink => !raises ⟨.opens, sink⟩
      let closed := closeOpenedSinks raises opened
      ⟨⟨calls ++ closed.calls, some first⟩, true⟩
  else openSequentially raises f.sinks

/-- `SinkFanOut.flush` and `SinkFanOut.close`. -/
def callSinks (operation : Operation) : CallsMade :=
  if f.concurrentWrites then
    let (calls, errors) := f.runSinkCalls raises operation
    ⟨calls, errors.head?⟩
  else callInTurn raises operation f.sinks

end FanOutSinks

namespace SinkRouter

variable (r : SinkRouter T) (raises : SinkCall → Bool)

/-- A sink more, unless it was seen. -/
def addUnseen (ordered : List ℕ) (sink : ℕ) : List ℕ :=
  if sink ∈ ordered then ordered else ordered ++ [sink]

/-- `SinkRouter._unique_sinks`. -/
def uniqueSinks : List ℕ :=
  let ordered := (r.routes.map SinkRoute.sink).foldl addUnseen []
  match r.default with
  | some sink => addUnseen ordered sink
  | none => ordered

/-- `SinkRouter.open`. -/
def openSinks : OpenMade := openSequentially raises r.uniqueSinks

/-- `SinkRouter.flush` and `SinkRouter.close`. -/
def callSinks (operation : Operation) : CallsMade := callInTurn raises operation r.uniqueSinks

end SinkRouter

/-- The two writers. -/
inductive Writer (T : Type) : Type where
  | fanOut (f : FanOutSinks)
  | router (r : SinkRouter T)

namespace Writer

/-- The sinks that a writer was given; some may be there several times. -/
def sinks : Writer T → List ℕ
  | fanOut f => f.sinks
  | router r => r.routes.map SinkRoute.sink ++ r.default.toList

/-- The sinks that a writer goes through. -/
def called : Writer T → List ℕ
  | fanOut f => f.sinks
  | router r => r.uniqueSinks

/-- All calls are made, whatever becomes of them. -/
def gathers : Writer T → Bool
  | fanOut f => f.concurrentWrites
  | router _ => false

def openSinks (raises : SinkCall → Bool) : Writer T → OpenMade
  | fanOut f => f.openSinks raises
  | router r => r.openSinks raises

def callSinks (raises : SinkCall → Bool) (operation : Operation) : Writer T → CallsMade
  | fanOut f => f.callSinks raises operation
  | router r => r.callSinks raises operation

end Writer

/-! ## Calls in order -/

section Calls

variable {raises : SinkCall → Bool} {operation : Operation}

theorem callInTurn_of_forall {sinks : List ℕ}
    (h : ∀ sink ∈ sinks, raises ⟨operation, sink⟩ = false) :
    callInTurn raises operation sinks = ⟨sinks.map (SinkCall.mk operation), none⟩ := by
  induction sinks with
  | nil => rfl
  | cons sink sinks ih =>
    obtain ⟨hsink, hrest⟩ := List.forall_mem_cons.mp h
    rw [callInTurn, hsink, ih hrest]
    rfl

/-- Nothing is called after the first call that raises. -/
theorem callInTurn_of_raises {before : List ℕ} {failed : ℕ} (after : List ℕ)
    (h : ∀ sink ∈ before, raises ⟨operation, sink⟩ = false)
    (hfailed : raises ⟨operation, failed⟩ = true) :
    callInTurn raises operation (before ++ failed :: after) =
      ⟨(before ++ [failed]).map (SinkCall.mk operation), some ⟨operation, failed⟩⟩ := by
  induction before with
  | nil =>
    rw [List.nil_append, callInTurn, if_pos hfailed]
    rfl
  | cons sink before ih =>
    obtain ⟨hsink, hrest⟩ := List.forall_mem_cons.mp h
    rw [List.cons_append, callInTurn, hsink, ih hrest]
    rfl

/-- The sinks before the first one that raises are opened. -/
theorem openInTurn_of_raises {before : List ℕ} {failed : ℕ} (opened after : List ℕ)
    (h : ∀ sink ∈ before, raises ⟨.opens, sink⟩ = false)
    (hfailed : raises ⟨.opens, failed⟩ = true) :
    openInTurn raises opened (before ++ failed :: after) =
      (⟨(before ++ [failed]).map (SinkCall.mk .opens), some ⟨.opens, failed⟩⟩,
        opened ++ before) := by
  induction before generalizing opened with
  | nil =>
    rw [List.nil_append, openInTurn, if_pos hfailed, List.append_nil]
    rfl
  | cons sink before ih =>
    obtain ⟨hsink, hrest⟩ := List.forall_mem_cons.mp h
    rw [List.cons_append, openInTurn, hsink, ih _ hrest, List.append_assoc]
    rfl

/-- The first call of a list that raises. -/
theorem head?_errorsOf (raises : SinkCall → Bool) (operation : Operation) (sinks : List ℕ) :
    (errorsOf raises (sinks.map (SinkCall.mk operation))).head? =
      (sinks.find? fun sink => raises ⟨operation, sink⟩).map (SinkCall.mk operation) := by
  rw [errorsOf, List.head?_filter, List.find?_map]
  rfl

/-- The calls of one operation are counted by their sinks. -/
theorem count_map_mk (operation operation' : Operation) (sinks : List ℕ) (sink : ℕ) :
    (sinks.map (SinkCall.mk operation)).count ⟨operation', sink⟩ =
      if operation = operation' then sinks.count sink else 0 := by
  split
  next hsame =>
    subst hsame
    exact List.count_map_of_injective _ _ (fun _ _ h => (SinkCall.mk.inj h).2) _
  next hne =>
    apply List.count_eq_zero_of_not_mem
    rw [List.mem_map]
    rintro ⟨_, -, h⟩
    exact hne (SinkCall.mk.inj h).1

end Calls

/-! ## The sinks of a router -/

namespace SinkRouter

theorem mem_foldl_addUnseen {sinks ordered : List ℕ} {sink : ℕ} :
    sink ∈ sinks.foldl addUnseen ordered ↔ sink ∈ ordered ∨ sink ∈ sinks := by
  induction sinks generalizing ordered with
  | nil => simp
  | cons first sinks ih =>
    have hadd : sink ∈ addUnseen ordered first ↔ sink ∈ ordered ∨ sink = first := by
      unfold addUnseen
      split
      next hold =>
        constructor
        · exact .inl
        · rintro (h | rfl)
          · exact h
          · exact hold
      next => rw [List.mem_append, List.mem_singleton]
    rw [List.foldl_cons, ih, hadd, List.mem_cons, or_assoc]

/-- The unique sinks are gone through as if the default were one more route. -/
theorem uniqueSinks_eq (r : SinkRouter T) :
    r.uniqueSinks = (r.routes.map SinkRoute.sink ++ r.default.toList).foldl addUnseen [] := by
  unfold uniqueSinks
  rw [List.foldl_append]
  cases r.default <;> rfl

end SinkRouter

/-- A writer goes through all of its sinks. -/
theorem Writer.mem_called_iff {w : Writer T} {sink : ℕ} : sink ∈ w.called ↔ sink ∈ w.sinks := by
  cases w with
  | fanOut f => rfl
  | router r =>
    rw [called, SinkRouter.uniqueSinks_eq, SinkRouter.mem_foldl_addUnseen, sinks]
    simp

/-! ## Every sink is covered -/

namespace Writer

variable (w : Writer T) (raises : SinkCall → Bool)

/-- A failing `open` closes each sink that was opened exactly once and raises the exception of the
first sink that failed to open. -/
def RollsBack : Prop :=
  ∀ failed, (w.called.find? fun sink => raises ⟨.opens, sink⟩) = some failed →
    (w.openSinks raises).raised = some ⟨.opens, failed⟩ ∧
    ∀ sink, (w.openSinks raises).calls.count ⟨.close, sink⟩ =
      if ⟨.opens, sink⟩ ∈ (w.openSinks raises).calls ∧ raises ⟨.opens, sink⟩ = false then 1 else 0

/-- The operation is called exactly once for each sink, and the first exception is raised. -/
def CallsEachOnce (operation : Operation) : Prop :=
  (∀ sink ∈ w.sinks, (w.callSinks raises operation).calls.count ⟨operation, sink⟩ = 1) ∧
    (w.callSinks raises operation).raised =
      (w.called.find? fun sink => raises ⟨operation, sink⟩).map (SinkCall.mk operation)

/-- What `open` needs to roll back cleanly. -/
def RollbackSpared : Prop :=
  if w.gathers then
    (∃ failed ∈ w.called, raises ⟨.opens, failed⟩ = true) →
      (w.called.filter fun sink => !raises ⟨.opens, sink⟩).Nodup
  else
    ∀ opened failed later, w.called = opened ++ failed :: later →
      (∀ sink ∈ opened, raises ⟨.opens, sink⟩ = false) → raises ⟨.opens, failed⟩ = true →
        opened.Nodup ∧ ∀ sink ∈ opened, raises ⟨.close, sink⟩ = false

/-- What `flush` and `close` need to reach all sinks. -/
def CallsSpared (operation : Operation) : Prop :=
  if w.gathers then w.called.Nodup
  else
    ∀ before sink later, w.called = before ++ sink :: later →
      (∀ earlier ∈ before, raises ⟨operation, earlier⟩ = false) →
        sink ∉ before ∧ (raises ⟨operation, sink⟩ = true → ∀ sink' ∈ later, sink' ∈ before ++ [sink])

end Writer

section Lists

variable {raises : SinkCall → Bool} {operation : Operation}

/-- A list has no duplicates if no element is there before itself. -/
theorem nodup_iff_forall_split {sinks : List ℕ} :
    sinks.Nodup ↔ ∀ before sink later, sinks = before ++ sink :: later → sink ∉ before := by
  constructor
  · rintro h before sink later rfl hmem
    rw [List.nodup_append] at h
    exact h.2.2 sink hmem sink List.mem_cons_self rfl
  · intro h
    induction sinks using List.reverseRecOn with
    | nil => exact List.nodup_nil
    | append_singleton sinks last ih =>
      have hlast : last ∉ sinks := h sinks last [] rfl
      have hsinks : sinks.Nodup := by
        apply ih
        rintro before sink later rfl
        exact h before sink (later ++ [last]) (by rw [List.append_assoc, List.cons_append])
      exact hsinks.append (List.nodup_singleton last) (by simpa using hlast)

/-- Up to the first sink that raises, a list splits in one way. -/
theorem split_of_first {first : List ℕ} {failed : ℕ} {rest before : List ℕ} {sink : ℕ}
    {later : List ℕ} (hfailed : raises ⟨operation, failed⟩ = true)
    (hbefore : ∀ s ∈ before, raises ⟨operation, s⟩ = false)
    (h : first ++ failed :: rest = before ++ sink :: later) :
    (before = first ∧ sink = failed ∧ later = rest) ∨ ∃ middle, first = before ++ sink :: middle := by
  rw [List.append_eq_append_iff] at h
  rcases h with ⟨middle, hmiddle, htail⟩ | ⟨middle, hmiddle, htail⟩
  · cases middle with
    | nil =>
      obtain ⟨rfl, rfl⟩ := List.cons.inj htail
      exact .inl ⟨by rw [hmiddle, List.append_nil], rfl, rfl⟩
    | cons head middle =>
      obtain ⟨rfl, -⟩ := List.cons.inj htail
      have hok := hbefore failed (by rw [hmiddle]; simp)
      rw [hfailed] at hok
      exact nomatch hok
  · cases middle with
    | nil =>
      obtain ⟨rfl, rfl⟩ := List.cons.inj htail
      exact .inl ⟨by rw [hmiddle, List.append_nil], rfl, rfl⟩
    | cons head middle =>
      obtain ⟨rfl, -⟩ := List.cons.inj htail
      exact .inr ⟨middle, hmiddle⟩

/-- The first call that raises, and what comes before it. -/
theorem find?_eq_some_split {sinks : List ℕ} {failed : ℕ}
    (h : (sinks.find? fun sink => raises ⟨operation, sink⟩) = some failed) :
    raises ⟨operation, failed⟩ = true ∧ ∃ before after, sinks = before ++ failed :: after ∧
      ∀ sink ∈ before, raises ⟨operation, sink⟩ = false := by
  obtain ⟨hfailed, before, after, hsinks, hbefore⟩ := List.find?_eq_some_iff_append.mp h
  exact ⟨hfailed, before, after, hsinks, fun sink hmem => by simpa using hbefore sink hmem⟩

theorem forall_of_find?_eq_none {sinks : List ℕ}
    (h : (sinks.find? fun sink => raises ⟨operation, sink⟩) = none) :
    ∀ sink ∈ sinks, raises ⟨operation, sink⟩ = false :=
  fun sink hmem => by simpa using List.find?_eq_none.mp h sink hmem

/-- Calls in turn cover a list exactly where no sink that is come to was there before, and no new
sink follows a call that raises. -/
theorem callInTurn_covers_iff (sinks : List ℕ) :
    ((∀ sink ∈ sinks, (callInTurn raises operation sinks).calls.count ⟨operation, sink⟩ = 1) ∧
      (callInTurn raises operation sinks).raised =
        (sinks.find? fun sink => raises ⟨operation, sink⟩).map (SinkCall.mk operation)) ↔
      ∀ before sink later, sinks = before ++ sink :: later →
        (∀ earlier ∈ before, raises ⟨operation, earlier⟩ = false) →
          sink ∉ before ∧
            (raises ⟨operation, sink⟩ = true → ∀ sink' ∈ later, sink' ∈ before ++ [sink]) := by
  cases hfind : sinks.find? fun sink => raises ⟨operation, sink⟩ with
  | none =>
    have hfine := forall_of_find?_eq_none hfind
    rw [callInTurn_of_forall hfine]
    simp only [count_map_mk, if_true, Option.map_none, and_true]
    rw [← List.nodup_iff_count_eq_one, nodup_iff_forall_split]
    constructor
    · rintro h before sink later rfl -
      refine ⟨h before sink later rfl, fun hraises => ?_⟩
      rw [hfine sink (by simp)] at hraises
      exact absurd hraises (by simp)
    · rintro h before sink later rfl
      exact (h before sink later rfl fun earlier hmem =>
        hfine earlier (List.mem_append_left _ hmem)).1
  | some failed =>
    obtain ⟨hfailed, first, rest, rfl, hfirst⟩ := find?_eq_some_split hfind
    rw [callInTurn_of_raises rest hfirst hfailed]
    simp only [count_map_mk, if_true, Option.map_some, and_true]
    constructor
    · intro h before sink later hsplit hbefore
      have hnodup : (first ++ [failed]).Nodup := by
        rw [List.nodup_iff_count_eq_one]
        intro s hs
        refine h s ?_
        rw [List.append_cons]
        exact List.mem_append_left _ hs
      rcases split_of_first hfailed hbefore hsplit with ⟨rfl, rfl, rfl⟩ | ⟨middle, rfl⟩
      · refine ⟨nodup_iff_forall_split.mp hnodup before sink [] rfl, fun _ s hs => ?_⟩
        have hcount := h s (List.mem_append_right _ (List.mem_cons_of_mem _ hs))
        exact List.count_pos_iff.mp (by rw [hcount]; exact Nat.one_pos)
      · have hsink : raises ⟨operation, sink⟩ = false := hfirst sink (by simp)
        refine ⟨?_, fun hraises => ?_⟩
        · refine nodup_iff_forall_split.mp hnodup before sink (middle ++ [failed]) ?_
          rw [List.append_assoc, List.cons_append]
        · rw [hsink] at hraises
          exact absurd hraises (by simp)
    · intro h s hs
      have hlast := h first failed rest rfl hfirst
      have hnodup : (first ++ [failed]).Nodup := by
        have hbefore : first.Nodup := by
          rw [nodup_iff_forall_split]
          rintro before sink later rfl
          refine (h before sink (later ++ failed :: rest) ?_ fun earlier hmem =>
            hfirst earlier (List.mem_append_left _ hmem)).1
          rw [List.append_assoc, List.cons_append]
        exact hbefore.append (List.nodup_singleton failed) (by simpa using hlast.1)
      have hmem : s ∈ first ++ [failed] := by
        rw [List.append_cons, List.mem_append] at hs
        rcases hs with hs | hs
        · exact hs
        · exact hlast.2 hfailed s hs
      exact List.nodup_iff_count_eq_one.mp hnodup s hmem

/-- How a rollback closes the opened sinks. -/
theorem count_close_iff (opened : List ℕ) {calls : List SinkCall}
    (hcalls : ∀ sink, calls.count ⟨.close, sink⟩ = opened.count sink)
    (hopened : ∀ sink, ⟨.opens, sink⟩ ∈ calls ∧ raises ⟨.opens, sink⟩ = false ↔ sink ∈ opened) :
    (∀ sink, calls.count ⟨.close, sink⟩ =
      if ⟨.opens, sink⟩ ∈ calls ∧ raises ⟨.opens, sink⟩ = false then 1 else 0) ↔ opened.Nodup := by
  simp only [hcalls, hopened]
  rw [List.nodup_iff_count_eq_one]
  constructor
  · intro h sink hmem
    rw [h sink, if_pos hmem]
  · intro h sink
    split
    next hmem => exact h sink hmem
    next hmem => exact List.count_eq_zero_of_not_mem hmem

theorem mem_map_mk {operation' : Operation} {sinks : List ℕ} {sink : ℕ} :
    (⟨operation', sink⟩ : SinkCall) ∈ sinks.map (SinkCall.mk operation) ↔
      operation = operation' ∧ sink ∈ sinks := by
  rw [List.mem_map]
  constructor
  · rintro ⟨s, hs, h⟩
    obtain ⟨rfl, rfl⟩ := SinkCall.mk.inj h
    exact ⟨rfl, hs⟩
  · rintro ⟨rfl, hs⟩
    exact ⟨sink, hs, rfl⟩

/-- A sequential `open` rolls back cleanly exactly where the sinks that it opens before the first one
that fails are distinct, and close without an exception. -/
theorem openSequentially_rollsBack_iff {first : List ℕ} {failed : ℕ} (rest : List ℕ)
    (hfirst : ∀ sink ∈ first, raises ⟨.opens, sink⟩ = false)
    (hfailed : raises ⟨.opens, failed⟩ = true) :
    ((openSequentially raises (first ++ failed :: rest)).raised = some ⟨.opens, failed⟩ ∧
      ∀ sink, (openSequentially raises (first ++ failed :: rest)).calls.count ⟨.close, sink⟩ =
        if ⟨.opens, sink⟩ ∈ (openSequentially raises (first ++ failed :: rest)).calls ∧
          raises ⟨.opens, sink⟩ = false then 1 else 0) ↔
      first.Nodup ∧ ∀ sink ∈ first, raises ⟨.close, sink⟩ = false := by
  have hopen : openSequentially raises (first ++ failed :: rest) =
      ⟨⟨(first ++ [failed]).map (SinkCall.mk .opens) ++ first.reverse.map (SinkCall.mk .close),
        some (((first.reverse.find? fun sink => raises ⟨.close, sink⟩).map
          (SinkCall.mk .close)).getD ⟨.opens, failed⟩)⟩, true⟩ := by
    unfold openSequentially
    rw [openInTurn_of_raises [] rest hfirst hfailed]
    dsimp only [closeOpenedSinks]
    rw [List.nil_append, head?_errorsOf]
  rw [hopen]
  dsimp only
  rw [count_close_iff first, and_comm]
  · apply and_congr_right
    intro _
    cases hfind : first.reverse.find? fun sink => raises ⟨.close, sink⟩ with
    | none =>
      have hfine := forall_of_find?_eq_none hfind
      simpa using hfine
    | some closed =>
      obtain ⟨hclosed, before, after, hsplit, -⟩ := find?_eq_some_split hfind
      have hmem : closed ∈ first := List.mem_reverse.mp (by rw [hsplit]; simp)
      simp only [Option.map_some, Option.getD_some, Option.some.injEq, SinkCall.mk.injEq, reduceCtorEq,
        false_and, false_iff]
      intro hfine
      rw [hfine closed hmem] at hclosed
      exact absurd hclosed (by simp)
  · intro sink
    rw [List.count_append, count_map_mk, count_map_mk]
    simp
  · intro sink
    rw [List.mem_append, mem_map_mk, mem_map_mk]
    simp only [true_and, reduceCtorEq, false_and, or_false, List.mem_append, List.mem_singleton]
    constructor
    · rintro ⟨hmem | rfl, hopened⟩
      · exact hmem
      · rw [hfailed] at hopened
        exact absurd hopened (by simp)
    · exact fun hmem => ⟨.inl hmem, hfirst sink hmem⟩

end Lists

namespace FanOutSinks

variable {f : FanOutSinks} {raises : SinkCall → Bool}

/-- A concurrent `open` rolls back cleanly exactly where the sinks that it opens are distinct. -/
theorem openSinks_rollsBack_iff (hgathers : f.concurrentWrites = true) {failed : ℕ}
    (hfind : (f.sinks.find? fun sink => raises ⟨.opens, sink⟩) = some failed) :
    ((f.openSinks raises).raised = some ⟨.opens, failed⟩ ∧
      ∀ sink, (f.openSinks raises).calls.count ⟨.close, sink⟩ =
        if ⟨.opens, sink⟩ ∈ (f.openSinks raises).calls ∧ raises ⟨.opens, sink⟩ = false
          then 1 else 0) ↔
      (f.sinks.filter fun sink => !raises ⟨.opens, sink⟩).Nodup := by
  have hopen : f.openSinks raises =
      ⟨⟨f.sinks.map (SinkCall.mk .opens) ++
          (f.sinks.filter fun sink => !raises ⟨.opens, sink⟩).reverse.map (SinkCall.mk .close),
        some ⟨.opens, failed⟩⟩, true⟩ := by
    unfold openSinks
    rw [if_pos hgathers]
    dsimp only [runSinkCalls, closeOpenedSinks]
    rw [head?_errorsOf, hfind]
    rfl
  rw [hopen]
  dsimp only
  rw [count_close_iff (f.sinks.filter fun sink => !raises ⟨.opens, sink⟩)]
  · exact and_iff_right rfl
  · intro sink
    rw [List.count_append, count_map_mk, count_map_mk]
    simp
  · intro sink
    rw [List.mem_append, mem_map_mk, mem_map_mk]
    simp

end FanOutSinks

namespace Writer

variable (w : Writer T) (raises : SinkCall → Bool)

theorem rollsBack_iff : w.RollsBack raises ↔ w.RollbackSpared raises := by
  have hsequential : ∀ sinks, w.called = sinks → w.openSinks raises = openSequentially raises sinks →
      w.gathers = false → (w.RollsBack raises ↔ w.RollbackSpared raises) := by
    rintro sinks rfl hopen hgathers
    unfold RollsBack RollbackSpared
    rw [hopen, hgathers, if_neg Bool.false_ne_true]
    constructor
    · intro h opened failed later hsplit hopened hfailed
      have hfind : (w.called.find? fun sink => raises ⟨.opens, sink⟩) = some failed := by
        rw [List.find?_eq_some_iff_append]
        exact ⟨hfailed, opened, later, hsplit, fun sink hmem => by simp [hopened sink hmem]⟩
      have hroll := h failed hfind
      rw [hsplit] at hroll
      exact (openSequentially_rollsBack_iff later hopened hfailed).mp hroll
    · intro h failed hfind
      obtain ⟨hfailed, opened, later, hsplit, hopened⟩ := find?_eq_some_split hfind
      rw [hsplit]
      exact (openSequentially_rollsBack_iff later hopened hfailed).mpr
        (h opened failed later hsplit hopened hfailed)
  cases w with
  | router r => exact hsequential _ rfl rfl rfl
  | fanOut f =>
    cases hgathers : f.concurrentWrites with
    | false =>
      refine hsequential f.sinks rfl ?_ hgathers
      rw [openSinks, FanOutSinks.openSinks, hgathers]
      rfl
    | true =>
      unfold RollsBack RollbackSpared
      rw [if_pos (show (fanOut f : Writer T).gathers = true from hgathers)]
      constructor
      · rintro h ⟨sink, hmem, hraises⟩
        obtain ⟨failed, hfind⟩ : ∃ failed, (f.sinks.find? fun sink => raises ⟨.opens, sink⟩) =
            some failed := by
          rw [← Option.isSome_iff_exists, List.find?_isSome]
          exact ⟨sink, hmem, hraises⟩
        exact (FanOutSinks.openSinks_rollsBack_iff hgathers hfind).mp (h failed hfind)
      · intro h failed hfind
        have hfailed := find?_eq_some_split hfind
        exact (FanOutSinks.openSinks_rollsBack_iff hgathers hfind).mpr
          (h ⟨failed, List.mem_of_find?_eq_some hfind, hfailed.1⟩)

theorem callsEachOnce_iff (operation : Operation) :
    w.CallsEachOnce raises operation ↔ w.CallsSpared raises operation := by
  unfold CallsEachOnce CallsSpared
  have hsequential : w.gathers = false →
      w.callSinks raises operation = callInTurn raises operation w.called := by
    cases w with
    | router r => exact fun _ => rfl
    | fanOut f =>
      intro hgathers
      change f.concurrentWrites = false at hgathers
      rw [callSinks, FanOutSinks.callSinks, hgathers]
      rfl
  simp only [← mem_called_iff]
  split
  next hgathers =>
    cases w with
    | router r => exact nomatch hgathers
    | fanOut f =>
      have hcalls : (fanOut f : Writer T).callSinks raises operation =
          ⟨f.sinks.map (SinkCall.mk operation),
            (f.sinks.find? fun sink => raises ⟨operation, sink⟩).map (SinkCall.mk operation)⟩ := by
        change f.concurrentWrites = true at hgathers
        rw [callSinks, FanOutSinks.callSinks, if_pos hgathers]
        dsimp only [FanOutSinks.runSinkCalls]
        rw [head?_errorsOf]
      rw [hcalls]
      simp only [count_map_mk, if_true, called, and_true]
      exact List.nodup_iff_count_eq_one.symm
  next hgathers =>
    rw [hsequential (Bool.eq_false_iff.mpr hgathers)]
    exact callInTurn_covers_iff w.called

/-- Where a writer covers its sinks: for a rollback, for a flush and for a close. -/
theorem coversSinks_iff :
    (w.RollsBack raises ↔ w.RollbackSpared raises) ∧
      (w.CallsEachOnce raises .flush ↔ w.CallsSpared raises .flush) ∧
        (w.CallsEachOnce raises .close ↔ w.CallsSpared raises .close) :=
  ⟨w.rollsBack_iff raises, w.callsEachOnce_iff raises .flush, w.callsEachOnce_iff raises .close⟩

/-- A sequential fan-out whose first sink raises in `flush` leaves the second unflushed, and the
exception of a rollback takes the place of the one that made it necessary. -/
theorem not_coversSinks_first :
    ¬ (fanOut ⟨[0, 1], by decide, false, none⟩ : Writer ℕ).CallsEachOnce
        (fun call => decide (call = ⟨.flush, 0⟩)) .flush ∧
      ¬ (router ⟨[⟨fun _ => .ok true, 0⟩], some 1, fun _ => SinkRouter.refusing false false 0⟩ :
        Writer ℕ).RollsBack
        (fun call => decide (call = ⟨.opens, 1⟩ ∨ call = ⟨.close, 0⟩)) := by
  constructor
  · intro h
    exact absurd (h.1 1 (by decide)) (by decide)
  · intro h
    exact absurd (h 1 (by decide)).1 (by decide)

end Writer

end AgoraEtl
