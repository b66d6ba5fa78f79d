import Mathlib.Algebra.GroupWithZero.Nat
import Mathlib.Algebra.Group.Prod
import Mathlib.Tactic.Linarith
import AgoraEtl.Delivery.Accounting
import AgoraEtl.Lanes.Fencing

/-!
# Run accounting

A lane that returns has taken in every record of its source, and each of them is counted as written,
dropped or errored, exactly once.  The amounts of the books are a pair: the change of the records that
are consumed but neither counted nor waiting, in the queue for the writer or in the objects of the lane,
and the number of records consumed.  Between two records the first amount is zero, and at the end
nothing waits any more.
-/

namespace AgoraEtl

open Effect Program

variable {ℓ α χ β : Type}

/-! ## The chain changes only the success hooks -/

/-- The footprint of programs that change nothing but the success hooks. -/
def hooksFrame (ℓ α χ : Type) : Footprint (Call α χ) (Mark α χ) (RunState ℓ α χ) where
  marks := fun _ => True
  calls := fun _ => True
  writes := fun s s' => s' = { s with successHooks := s'.successHooks }
  hangs := True

/-- The program changes nothing but the success hooks. -/
abbrev OnlyHooks (p : Delivery ℓ α χ β) : Prop := p.Within (hooksFrame ℓ α χ)

/-- Awaiting an operation touches no hooks. -/
theorem onlyHooks_invoke (a : Await α χ) : OnlyHooks (invoke a : Delivery ℓ α χ a.Value) :=
  within_bind (within_perform trivial) fun r => within_ofExcept r

/-- What only touches the hooks counts nothing. -/
theorem unbooked_of_onlyHooks {p : Delivery ℓ α χ β} (hp : OnlyHooks p) : Unbooked p := by
  refine hp.mono (fun _ _ => trivial) (fun _ _ => trivial) (fun s s' h => ?_) fun _ => trivial
  rw [h]
  exact (deliveryBooks ℓ α χ).refl s

namespace MiddlewareChain

/-- Applying a batch middleware touches at most the hooks. -/
theorem onlyHooks_applyBatchMiddleware (mw : Middleware) (index : ℕ) (current : List (Option α)) :
    OnlyHooks (applyBatchMiddleware mw index current : Delivery ℓ α χ (StageResult α)) := by
  refine within_bind (within_attempt (within_bind (onlyHooks_invoke _) fun _ =>
    within_ite (within_ofExcept _) (within_ret _))) fun processed => ?_
  cases processed with
  | error exc => exact within_ite (within_ret _) (within_raise _)
  | ok results => exact within_ite (within_raise _) (within_ret _)

variable [DecidableEq α]

omit [DecidableEq α] in
/-- Nor does a predicate touch more. -/
theorem onlyHooks_callPredicate (index : ℕ) (record : α) :
    OnlyHooks (Middleware.callPredicate index record : Delivery ℓ α χ (Option α)) :=
  within_bind (onlyHooks_invoke _) fun _ => within_ret _

/-- Nor does a call of `process`. -/
theorem onlyHooks_callProcess (index : ℕ) (record : α) :
    OnlyHooks (Middleware.callProcess index record : Delivery ℓ α χ (Option α)) :=
  within_bind (within_perform trivial) fun _ => within_bind (within_modify fun _ => rfl) fun _ =>
    within_ofExcept _

/-- Processing a record in one middleware touches at most the hooks. -/
theorem onlyHooks_process (mw : Middleware) (index : ℕ) (record : α) :
    OnlyHooks (mw.process index record : Delivery ℓ α χ (Option α)) := by
  unfold Middleware.process
  cases mw.kind with
  | filter isAsync => exact onlyHooks_callPredicate _ _
  | batch => exact within_bind (onlyHooks_invoke _) fun _ => within_ret _
  | processBatch => exact within_raise _
  | arrowBatch => exact within_ret _
  | arrowProcessBatch => exact within_ret _
  | map isAsync => exact onlyHooks_callProcess _ _
  | perRecord => exact onlyHooks_callProcess _ _

/-- So does processing it in all of its stages. -/
theorem onlyHooks_processStages (record current : α) (stages : List (Middleware × ℕ)) :
    OnlyHooks (processStages record current stages : Delivery ℓ α χ (RecordOutcome α)) := by
  induction stages generalizing current with
  | nil => exact within_ret _
  | cons stage stages ih =>
    refine within_bind (within_attempt (onlyHooks_process _ _ _)) fun processed => ?_
    rcases processed with exc | _ | value
    · exact within_ite (within_bind (onlyHooks_invoke _) fun _ => within_ret _) (within_raise _)
    · exact within_ret _
    · exact within_bind (within_ite (within_ret ()) (within_modify fun _ => rfl)) fun _ => ih value

/-- So does applying a stage record by record. -/
theorem onlyHooks_applyPerRecord (stage : Middleware × ℕ) (records : List (Option α)) :
    OnlyHooks (applyPerRecord stage records : Delivery ℓ α χ (List (Option α))) := by
  induction records with
  | nil => exact within_ret _
  | cons record records ih =>
    cases record with
    | none => exact within_bind ih fun _ => within_ret _
    | some record =>
      exact within_bind (onlyHooks_processStages _ _ _) fun _ => within_bind ih fun _ => within_ret _

omit [DecidableEq α] in
/-- So does a loop of synchronous calls, if the calls do. -/
theorem onlyHooks_applySyncLoop (index : ℕ) {call : α → Delivery ℓ α χ (Option α)}
    (hcall : ∀ record, OnlyHooks (call record)) (records : List (Option α)) :
    OnlyHooks (applySyncLoop index call records) := by
  induction records with
  | nil => exact within_ret _
  | cons record records ih =>
    cases record with
    | none => exact within_bind ih fun _ => within_ret _
    | some record =>
      refine within_bind (within_catchException (hcall record) fun exc => ?_) fun _ =>
        within_bind ih fun _ => within_ret _
      exact within_bind (onlyHooks_invoke _) fun _ => within_ret _

/-- So does applying a stage to a batch. -/
theorem onlyHooks_applyInBatch (mw : Middleware) (index : ℕ) (current : List (Option α)) :
    OnlyHooks (applyInBatch mw index current : Delivery ℓ α χ (StageResult α)) := by
  have hmap : OnlyHooks (applySyncMapBatch index current : Delivery ℓ α χ (List (Option α))) :=
    within_ite (within_ret _) (onlyHooks_applySyncLoop _ (onlyHooks_callProcess _) _)
  have hfilter : OnlyHooks (applySyncFilterBatch index current :
      Delivery ℓ α χ (List (Option α))) :=
    within_ite (within_ret _) (onlyHooks_applySyncLoop _ (onlyHooks_callPredicate _) _)
  have hrecords : OnlyHooks (Sum.inr <$> applyPerRecord (mw, index) current :
      Delivery ℓ α χ (StageResult α)) :=
    within_bind (onlyHooks_applyPerRecord _ _) fun _ => within_ret _
  unfold applyInBatch
  cases mw.kind with
  | map isAsync =>
    cases isAsync with
    | false => exact within_bind hmap fun _ => within_ret _
    | true => exact hrecords
  | filter isAsync =>
    cases isAsync with
    | false => exact within_bind hfilter fun _ => within_ret _
    | true => exact hrecords
  | perRecord => exact hrecords
  | batch => exact onlyHooks_applyBatchMiddleware _ _ _
  | processBatch => exact onlyHooks_applyBatchMiddleware _ _ _
  | arrowBatch => exact within_ret _
  | arrowProcessBatch => exact within_ret _

/-- So does applying all stages to a batch. -/
theorem onlyHooks_applyStages (stages : List (Middleware × ℕ)) (current : List (Option α)) :
    OnlyHooks (applyStages stages current : Delivery ℓ α χ (BatchProcessResult α)) := by
  induction stages generalizing current with
  | nil => exact within_ret _
  | cons stage stages ih =>
    refine within_bind (onlyHooks_applyInBatch _ _ _) fun result => ?_
    cases result with
    | inl failure => exact within_ret _
    | inr next => exact ih next

end MiddlewareChain

/-! ## The books of a lane -/

namespace RunState

/-- The records that are consumed, but neither counted nor waiting; `load` is how many the objects of
the lane hold. -/
def unaccounted (load : ℓ → ℕ) (s : RunState ℓ α χ) : ℤ := s.outstanding - load s.lane

/-- How many records have been consumed. -/
def consumedSoFar (s : RunState ℓ α χ) : ℕ := s.metrics.recordsConsumed + s.hot.consumed

end RunState

/-- The change of the unaccounted records and the number of records consumed, as long as the states
have the invariant. -/
def laneBooks (Inv : RunState ℓ α χ → Prop) (load : ℓ → ℕ) :
    Grading (ℤ × ℕ) (RunState ℓ α χ) where
  rel d s s' := Inv s → Inv s' ∧ s'.unaccounted load = s.unaccounted load + d.1 ∧
    s'.consumedSoFar = s.consumedSoFar + d.2
  refl s hs := ⟨hs, by simp, by simp⟩
  trans h h' hs := by
    obtain ⟨hs', hunaccounted, hconsumed⟩ := h hs
    obtain ⟨hs'', hunaccounted', hconsumed'⟩ := h' hs'
    refine ⟨hs'', ?_, ?_⟩
    · rw [hunaccounted', hunaccounted, Prod.fst_add, add_assoc]
    · rw [hconsumed', hconsumed, Prod.snd_add, add_assoc]

/-- The state at the end of a run: the counters are committed, so many records have been consumed, and
those that are not counted were unaccounted for before. -/
structure RunState.EndOfRun (s : RunState ℓ α χ) (load : ℓ → ℕ) (start : RunState ℓ α χ) (n : ℕ) :
    Prop where
  committed : s.hot = {}
  flushed : s.pendingWrites = []
  emptied : load s.lane = 0
  unaccounted : s.unaccounted load = start.unaccounted load
  consumed : s.consumedSoFar = start.consumedSoFar + n

/-- The invariant is about the queue and the objects of the lane. -/
def QueueInv (Inv : RunState ℓ α χ → Prop) : Prop := ∀ s s', s'.queue = s.queue → Inv s → Inv s'

/-- The invariant is about the hot-path counters and the objects of the lane. -/
def IntakeInv (Inv : RunState ℓ α χ → Prop) : Prop :=
  ∀ s s', s'.intake = s.intake → s'.lane = s.lane → Inv s → Inv s'

section Books

variable {Inv : RunState ℓ α χ → Prop} {load : ℓ → ℕ}

/-- When the program returns, it has changed the books of the lane by these amounts. -/
abbrev Tracks (Inv : RunState ℓ α χ → Prop) (load : ℓ → ℕ) (d : ℤ) (n : ℕ)
    (p : Delivery ℓ α χ β) : Prop :=
  p.Moves (laneBooks Inv load) CleanWrites (d, n)

/-- Along a sequence the changes of the books and the numbers of consumed records add up. -/
theorem tracks_bind {p : Delivery ℓ α χ β} {γ : Type} {f : β → Delivery ℓ α χ γ} {d e k : ℤ}
    {m n l : ℕ} (hp : Tracks Inv load d m p) (hf : ∀ a, Tracks Inv load e n (f a))
    (hk : d + e = k) (hl : m + n = l) : Tracks Inv load k l (p >>= f) :=
  moves_bind hp hf (by rw [← hk, ← hl]; rfl)

/-- The delivery of records in the books of the lane. -/
theorem laneBooks_of_deliveryBooks (hInv : QueueInv Inv) {d : ℤ} {s s' : RunState ℓ α χ}
    (h : (deliveryBooks ℓ α χ).rel d s s') :
    (laneBooks Inv load).rel (d, 0) s s' := by
  intro hs
  obtain ⟨hbalance, hintake, hqueue⟩ := h
  have hwrites : s'.pendingWrites = s.pendingWrites := congrArg QueueState.pendingWrites hqueue
  have hlane : s'.lane = s.lane := congrArg QueueState.lane hqueue
  refine ⟨hInv s s' hqueue hs, ?_, ?_⟩
  · simp only [RunState.unaccounted, RunState.outstanding, hbalance, hwrites, hlane]
    ring
  · simp only [RunState.intake, Prod.mk.injEq] at hintake
    simp only [RunState.consumedSoFar, hintake.1, hintake.2, add_zero]

/-- Records that are counted leave the balance, and none is consumed. -/
theorem tracks_of_counts (hInv : QueueInv Inv) {p : Delivery ℓ α χ β} {n : ℤ} (hp : Counts n p) :
    Tracks Inv load (-n) 0 p :=
  hp.coarsen (f := fun d => (d, 0)) (fun _ _ _ h => laneBooks_of_deliveryBooks hInv h)
    fun _ d hd => by rw [hd]

/-- A program off the books changes nothing. -/
theorem tracks_of_quiet (hInv : QueueInv Inv) {p : Delivery ℓ α χ β} (hp : Unbooked p) :
    Tracks Inv load 0 0 p :=
  tracks_of_counts hInv (n := 0) (counts_of_quiet hp)

/-- It keeps within what the books of the lane call quiet. -/
theorem unbooked_lane (hInv : QueueInv Inv) {p : Delivery ℓ α χ β} (hp : Unbooked p) :
    p.Within (laneBooks Inv load).quiet := by
  refine hp.mono (fun _ _ => trivial) (fun _ _ => trivial) (fun s s' h => ?_) fun _ => trivial
  exact laneBooks_of_deliveryBooks hInv h

/-- A program that counts or queues records. -/
theorem tracks_of_takes {uses : Bool} (hInv : IntakeInv Inv) {p : Delivery ℓ α χ β}
    {n : ℤ} (hp : Takes uses n p) : Tracks Inv load (-n) 0 p := by
  refine hp.coarsen (f := fun d => (d, 0)) (fun d s s' h hs => ?_) fun _ d hd => by rw [hd]
  obtain ⟨houtstanding, hintake, hlane, -⟩ := h
  refine ⟨hInv s s' hintake hlane hs, ?_, ?_⟩
  · simp only [RunState.unaccounted, houtstanding, hlane]
    ring
  · simp only [RunState.intake, Prod.mk.injEq] at hintake
    simp only [RunState.consumedSoFar, hintake.1, hintake.2, add_zero]

/-- A change of the state. -/
theorem tracks_modify {f : RunState ℓ α χ → RunState ℓ α χ} {d : ℤ} {n : ℕ}
    (hInv : ∀ s, Inv s → Inv (f s))
    (hunaccounted : ∀ s, (f s).unaccounted load = s.unaccounted load + d)
    (hconsumed : ∀ s, (f s).consumedSoFar = s.consumedSoFar + n) :
    Tracks Inv load d n (modify f : Delivery ℓ α χ Unit) :=
  books_modify (d := (d, n)) (fun s hs => ⟨hInv s hs, hunaccounted s, hconsumed s⟩) rfl

/-- A program that is known to change the books by the amounts where the invariant holds. -/
theorem tracks_of_safe {p : Delivery ℓ α χ β} {d : ℤ} {n : ℕ}
    (hp : ∀ w₀ w, Inv w.state → p.Safe (.alone CleanWrites (fun _ _ => True) True)
      (fun _ _ w' => Inv w'.state ∧
        w'.state.unaccounted load = w.state.unaccounted load + d ∧
        w'.state.consumedSoFar = w.state.consumedSoFar + n) (fun _ _ _ => True) w₀ w) :
    Tracks Inv load d n p := by
  intro w₀ w
  by_cases hs : Inv w.state
  · exact (hp w₀ w hs).mono (fun _ _ w' h => ⟨(d, n), rfl, fun _ => h⟩) fun _ _ _ h => h
  · exact (yields_true p w₀ w).mono (fun _ _ _ _ => ⟨(d, n), rfl, fun h => absurd h hs⟩)
      fun _ _ _ h => h

variable (hInv : QueueInv Inv)

include hInv

/-- Committing the hot-path counters changes no balance. -/
theorem tracks_hotFlush : Tracks Inv load 0 0 (hotFlush : Delivery ℓ α χ Unit) :=
  tracks_modify (fun s hs => hInv s _ rfl hs)
    (fun s => by simp [RunState.unaccounted, RunState.outstanding, RunState.balance]) fun s => by
      simp [RunState.consumedSoFar]

/-- Counting consumed records adds them to the balance. -/
theorem tracks_incConsumed (n : ℕ) : Tracks Inv load n n (incConsumed n : Delivery ℓ α χ Bool) := by
  refine tracks_bind (e := 0) (n := 0) (tracks_modify (d := n) (n := n)
    (fun s hs => hInv s _ rfl hs) (fun s => ?_) fun s => ?_) (fun _ => ?_) (by simp) (by simp)
  · simp only [RunState.unaccounted, RunState.outstanding, RunState.balance]
    push_cast
    ring
  · simp only [RunState.consumedSoFar]
    ring
  · exact books_quiet_bind within_read fun _ => books_ret rfl

/-- Counting written records takes them off the balance. -/
theorem tracks_incWritten (n : ℕ) :
    Tracks Inv load (-n) 0 (incWritten n : Delivery ℓ α χ Unit) := by
  refine tracks_modify (fun s hs => hInv s _ rfl hs) (fun s => ?_) fun s => rfl
  simp only [RunState.unaccounted, RunState.outstanding, RunState.balance]
  push_cast
  ring

/-- Consuming records adds them to the balance. -/
theorem tracks_consume (n : ℕ) : Tracks Inv load n n (consume n : Delivery ℓ α χ Unit) :=
  tracks_bind (tracks_incConsumed hInv n) (fun _ => books_ite (tracks_hotFlush hInv)
    (books_ret rfl)) (add_zero _) (add_zero _)

end Books

/-- The records of the source, one body each. -/
theorem tracks_forEach {Inv : RunState ℓ α χ → Prop} {load : ℓ → ℕ} (hInv : QueueInv Inv)
    {ρ : Type} {size : ρ → ℕ} {body : ρ → Delivery ℓ α χ Unit}
    (hbody : ∀ element, Tracks Inv load 0 (size element) (body element)) (elements : List ρ) :
    Tracks Inv load 0 (elements.map size).sum (forEach body elements) := by
  induction elements with
  | nil => exact tracks_of_quiet hInv (unbooked_invoke _)
  | cons element elements ih =>
    rw [List.map_cons, List.sum_cons]
    exact tracks_bind (tracks_of_quiet hInv (unbooked_invoke _)) (fun _ => tracks_bind (hbody element)
      (fun _ => ih) (add_zero 0) rfl) (add_zero 0) (zero_add _)

/-! ## The batch lane -/

namespace PipelineState

/-- How many records the pending batches hold. -/
def rows (p : PipelineState α χ) : ℕ := (p.pendingBatches.map fun entry => entry.2.2.rows.length).sum

/-- No two pending batches have the same number, and the next number is free. -/
structure Keyed (p : PipelineState α χ) : Prop where
  nodup : (p.pendingBatches.map Prod.fst).Nodup
  fresh : ∀ entry ∈ p.pendingBatches, entry.1 < p.nextSequence

/-- At the start no batch is pending. -/
theorem keyed_empty : (PipelineState.empty : PipelineState α χ).Keyed :=
  ⟨List.nodup_nil, fun _ h => absurd h List.not_mem_nil⟩

/-- A batch is pushed under a number that is new. -/
theorem Keyed.push {p : PipelineState α χ} (hp : p.Keyed) (task : BatchTask)
    (batch : SourceBatch α χ) : (p.push task batch).Keyed where
  nodup := by
    rw [PipelineState.push, List.map_append, List.nodup_append]
    refine ⟨hp.nodup, by simp, fun key hkey key' hkey' => ?_⟩
    obtain ⟨entry, hentry, rfl⟩ := List.mem_map.mp hkey
    rw [List.map_singleton, List.mem_singleton] at hkey'
    exact hkey' ▸ (hp.fresh entry hentry).ne
  fresh entry hentry := by
    rcases List.mem_append.mp hentry with hentry | hentry
    · exact (hp.fresh entry hentry).trans (Nat.lt_succ_self _)
    · rw [List.mem_singleton] at hentry
      exact hentry ▸ Nat.lt_succ_self _

/-- Taking a batch out keeps the numbers of the others distinct. -/
theorem Keyed.pop {p : PipelineState α χ} (hp : p.Keyed) (n : ℕ) : (p.pop n).Keyed where
  nodup := hp.nodup.sublist (List.Sublist.map _ List.filter_sublist)
  fresh entry hentry := hp.fresh entry (List.mem_of_mem_filter hentry)

/-- The rows of a pushed batch are added to the pending ones. -/
theorem rows_push (p : PipelineState α χ) (task : BatchTask) (batch : SourceBatch α χ) :
    (p.push task batch).rows = p.rows + batch.rows.length := by
  simp [rows, PipelineState.push]

/-- A batch that is taken out leaves the records of the others. -/
theorem rows_pop {p : PipelineState α χ} (hp : p.Keyed) {n : ℕ} {task : BatchTask}
    {batch : SourceBatch α χ} (hlookup : p.pendingBatches.lookup n = some (task, batch)) :
    p.rows = batch.rows.length + (p.pop n).rows := by
  have hnodup := hp.nodup
  unfold rows PipelineState.pop
  dsimp only
  revert hlookup hnodup
  induction p.pendingBatches with
  | nil => exact fun h _ => absurd h (by simp)
  | cons entry entries ih =>
    intro hlookup hnodup
    rw [List.map_cons, List.nodup_cons] at hnodup
    rw [List.lookup_cons] at hlookup
    by_cases hkey : n = entry.1
    · simp only [hkey, BEq.rfl] at hlookup
      have hrest : entries.filter (fun e => e.1 ≠ n) = entries := by
        refine List.filter_eq_self.mpr fun e he => decide_eq_true fun h => hnodup.1 ?_
        exact hkey ▸ h ▸ List.mem_map_of_mem he
      rw [List.filter_cons_of_neg (by simp [hkey]), hrest, List.map_cons, List.sum_cons,
        Option.some.inj hlookup]
    · simp only [beq_eq_false_iff_ne.mpr hkey] at hlookup
      rw [List.filter_cons_of_pos (by simpa using Ne.symm hkey), List.map_cons, List.sum_cons,
        List.map_cons, List.sum_cons, ih hlookup hnodup.2]
      omega

end PipelineState

/-- The invariant of the batch lane: it queues nothing for the writer. -/
def BatchLaneInv (s : RunState (PipelineState α χ) α χ) : Prop :=
  s.pendingWrites = [] ∧ s.lane.Keyed

/-- The amounts of the programs of the batch lane. -/
abbrev TracksBatch (d : ℤ) (n : ℕ) (p : PipelineDelivery α χ β) : Prop :=
  Tracks BatchLaneInv PipelineState.rows d n p

/-- The invariant of the batch lane is about the queue and the pending batches. -/
theorem queueInv_batchLaneInv : QueueInv (BatchLaneInv (α := α) (χ := χ)) := by
  intro s s' hqueue hs
  rw [BatchLaneInv, show s'.pendingWrites = s.pendingWrites from
    congrArg QueueState.pendingWrites hqueue, show s'.lane = s.lane from
    congrArg QueueState.lane hqueue]
  exact hs

namespace ExecutionCoordinator

variable (c : ExecutionCoordinator α χ) {Inv : RunState ℓ α χ → Prop} {load : ℓ → ℕ}
  (hInv : QueueInv Inv)

include hInv

omit c in
/-- The count of written rows raises nothing. -/
theorem allOrNothing_countRows (n : ℕ) :
    (do incWritten n; consume 0 : Delivery ℓ α χ Unit).AllOrNothing
      (laneBooks Inv load) CleanWrites (-(n : ℤ), 0) := by
  have hmoves : Tracks Inv load (-(n : ℤ)) 0 (do incWritten n; consume 0 : Delivery ℓ α χ Unit) :=
    tracks_bind (tracks_incWritten hInv n)
      (fun _ => tracks_consume hInv 0) (by simp) rfl
  intro w₀ w
  have hreturns : (do incWritten n; consume 0 : Delivery ℓ α χ Unit).Safe
      (.alone CleanWrites (fun _ _ => True) True) (fun _ _ _ => True) (fun _ _ _ => False) w₀ w := by
    unfold incWritten consume incConsumed hotFlush
    simp only [safe_bind, safe_modify, safe_read, pure_eq_ret, safe_ret]
    split <;> trivial
  refine (Safe.and (fun _ _ h => h) (fun _ _ _ h => h) (fun _ _ h => h) (hmoves w₀ w) hreturns).mono
    (fun _ _ w' h => ?_) fun _ _ _ h => h.2.elim
  obtain ⟨⟨d, rfl, hrel⟩, -⟩ := h
  exact hrel

/-- Writing Arrow rows counts all of them as written, or it raises and counts none. -/
theorem allOrNothing_writeArrowRows (rows : List α) :
    (c.writeArrowRows rows : Delivery ℓ α χ Unit).AllOrNothing
      (laneBooks Inv load) CleanWrites (-(rows.length : ℤ), 0) := by
  have hquiet : ∀ {γ : Type} {p : Delivery ℓ α χ γ}, Unbooked p →
      p.Within (laneBooks Inv load).quiet := fun hp =>
    unbooked_lane hInv hp
  refine allOrNothing_ite (allOrNothing_quiet_bind (hquiet (c.delivery.unbooked_writeArrowBatch rows))
    fun _ => allOrNothing_countRows hInv _) ?_
  refine allOrNothing_quiet_bind (hquiet (c.delivery.unbooked_writeBatch rows)) fun results => ?_
  split
  · exact allOrNothing_quiet_bind (within_raise _) fun _ => allOrNothing_countRows hInv _
  · exact allOrNothing_ite (allOrNothing_countRows hInv _)
      (allOrNothing_quiet_bind (within_raise _) fun _ => allOrNothing_countRows hInv _)

omit hInv in
/-- Rows whose write raised are counted once each. -/
theorem counts_arrowWriteFailed (exc : Exc) (checkpoint : Option χ) (rawRows rows : List α) :
    Counts rows.length (c.arrowWriteFailed exc checkpoint rawRows rows : Delivery ℓ α χ Unit) := by
  refine counts_bind_quiet (counts_errored _) fun _ => ?_
  have hrest : ∀ routed : Bool, Unbooked
      (if (routed || decide (c.delivery.sinkFailurePolicy = .logAndContinue)) = true then pure ()
      else raiseRecordDelivery exc : Delivery ℓ α χ Unit) := fun _ =>
    within_ite (within_ret ()) (within_raise _)
  refine within_ite ?_ (within_bind (within_ret _) hrest)
  exact within_bind (c.delivery.unbooked_routeAll _ _ _ _ _) fun _ => within_ite
    (within_bind (within_raise _) hrest) (within_bind (within_ret _) hrest)

variable [DecidableEq χ]

/-- The rows of an Arrow batch that the chain leaves alone. -/
theorem tracks_deliverArrowRows (batch : SourceBatch α χ) (rows : List α) :
    Tracks Inv load (-rows.length) 0 (c.deliverArrowRows batch rows : Delivery ℓ α χ Unit) := by
  refine tracks_bind (e := 0) (n := 0) ?_ (fun _ => tracks_bind
    (tracks_of_quiet hInv (c.delivery.unbooked_saveBatchCheckpoint _ _)) (fun _ => tracks_hotFlush hInv)
    (add_zero 0) rfl) (add_zero _) rfl
  refine moves_allOrNothing_attempt (c.allOrNothing_writeArrowRows hInv rows) (fun _ => books_ret rfl)
    fun exc => ?_
  dsimp only
  split
  · exact tracks_of_counts hInv (c.counts_arrowWriteFailed _ _ _ _)
  · exact books_raise _

variable [DecidableEq α]

/-- Finalizing a batch takes its rows off the balance. -/
theorem tracks_finalizeListBatchResult (batch : SourceBatch α χ) (result : BatchProcessResult α) :
    Tracks Inv load (-batch.rows.length) 0
      (c.finalizeListBatchResult batch result : Delivery ℓ α χ Unit) :=
  tracks_bind (tracks_of_quiet hInv (unbooked_note _)) (fun _ => tracks_bind
    (tracks_of_counts hInv (c.delivery.counts_writeBatchResult _ _ _))
    (fun _ => tracks_hotFlush hInv) (add_zero _) rfl) (zero_add _) rfl

/-- The sequential loop; an Arrow batch is only taken where there is no middleware. -/
theorem tracks_runSequentialBatches (harrow : c.arrowChain = true → c.chain = [])
    (batches : List (SourceBatch α χ)) :
    Tracks Inv load 0 (batches.map fun batch => batch.rows.length).sum
      (c.runSequentialBatches batches : Delivery ℓ α χ Unit) := by
  refine tracks_bind (tracks_forEach hInv (fun batch => ?_) batches)
    (fun _ => tracks_hotFlush hInv) (add_zero 0) (add_zero _)
  split
  · rename_i harrowChain
    rw [runArrowBatch, harrow harrowChain]
    simp only [List.isEmpty_nil, if_true]
    exact tracks_bind (tracks_incConsumed hInv _) (fun _ => tracks_bind
      (tracks_of_quiet hInv (unbooked_note _)) (fun _ => c.tracks_deliverArrowRows hInv batch batch.rows)
      (zero_add _) rfl) (add_neg_cancel _) (add_zero _)
  · refine tracks_bind (tracks_incConsumed hInv _) (fun _ => tracks_bind (tracks_of_quiet hInv
      (unbooked_of_onlyHooks (within_ite (within_ret _) (MiddlewareChain.onlyHooks_applyStages _ _))))
      (fun result => c.tracks_finalizeListBatchResult hInv batch result) (zero_add _) rfl)
      (add_neg_cancel _) (add_zero _)

end ExecutionCoordinator

namespace PipelinedVariant

variable {ρ : Type}

/-- The programs of a variant count each batch when it is finalized. -/
structure CountsBatches (v : PipelinedVariant α χ ρ) : Prop where
  enter : ∀ batch, Unbooked (v.enter batch)
  collect : ∀ task, Unbooked (v.collect task)
  finalize : ∀ batch result, TracksBatch (-batch.rows.length) 0 (v.finalize batch result)

variable {v : PipelinedVariant α χ ρ} (hv : v.CountsBatches)

include hv

/-- Resolving a batch that was taken takes its rows off the balance. -/
theorem tracks_resolveTaken (streaming : Bool) (task : BatchTask) (batch : SourceBatch α χ) :
    TracksBatch (-batch.rows.length) 0 (v.resolveTaken streaming task batch) := by
  refine moves_attempt (m := (-(batch.rows.length : ℤ), 0)) (n := 0)
    (tracks_bind (tracks_of_quiet queueInv_batchLaneInv (hv.collect task))
      (fun result => hv.finalize batch result)
      (zero_add _) rfl) (fun _ => books_ret rfl) (fun exc => ?_) (by simp)
  exact yields_of_last fun _ => yields_of_last fun _ => yields_raise _

/-- A batch that is taken out is counted. -/
theorem safe_popBatch_books (streaming : Bool) {n : ℕ} {task : BatchTask} {batch : SourceBatch α χ}
    {w₀ w : RunWorld (PipelineState α χ) α χ}
    (hlookup : w.state.lane.pendingBatches.lookup n = some (task, batch)) :
    (do popBatch n; v.resolveTaken streaming task batch).Safe
      (.alone CleanWrites (fun _ _ => True) True)
      (fun _ _ w' => (laneBooks BatchLaneInv PipelineState.rows).rel (0, 0) w.state w'.state)
      (fun _ _ _ => True) w₀ w := by
  unfold popBatch modifyPipeline
  rw [safe_bind]
  refine safe_modify_of fun w₁ hstate _ => ?_
  refine (tracks_resolveTaken hv streaming task batch w₀ w₁).mono (fun _ _ w' h hs => ?_)
    fun _ _ _ h => h
  obtain ⟨d, rfl, hrel⟩ := h
  have hs₁ : BatchLaneInv w₁.state := hstate ▸ ⟨hs.1, hs.2.pop n⟩
  obtain ⟨hs', hunaccounted, hconsumed⟩ := hrel hs₁
  refine ⟨hs', hunaccounted.trans ?_, hconsumed.trans ?_⟩
  · have hrows := PipelineState.rows_pop hs.2 hlookup
    simp only [hstate, RunState.unaccounted, RunState.outstanding, RunState.balance]
    rw [hrows]
    push_cast
    ring
  · rw [hstate]
    rfl

/-- Draining what is ready leaves the books of the lane balanced. -/
theorem tracks_drainReady (fuel : ℕ) (streaming : Bool) (nextCommit : ℕ) :
    TracksBatch 0 0 (v.drainReady fuel streaming nextCommit) := by
  refine moves_iterate (fun n w₀ w => ?_) fuel nextCommit
  unfold drainReadyRound getBatch
  rw [safe_bind, safe_bind, safe_read]
  refine (safe_ret _).mpr ?_
  cases hlookup : w.state.lane.pendingBatches.lookup n with
  | none => exact ⟨0, rfl, (laneBooks _ _).refl _⟩
  | some entry =>
    obtain ⟨task, batch⟩ := entry
    rw [safe_bind, safe_perform_alone]
    refine fun done _ => ⟨trivial, ?_⟩
    split
    · change ((do popBatch n; v.resolveTaken streaming task batch) >>= fun _ =>
        pure (Sum.inl (n + 1))).Safe _ _ _ _ _
      rw [safe_bind]
      exact (safe_popBatch_books hv streaming (w := w.called (Call.futureDone task.future) done)
        hlookup).mono (fun _ _ w' h => ⟨0, rfl, h⟩) fun _ _ _ h => h
    · exact ⟨0, rfl, (laneBooks _ _).refl _⟩

/-- So does committing the next batch. -/
theorem tracks_commitNext (streaming : Bool) (nextCommit : ℕ) :
    TracksBatch 0 0 (v.commitNext streaming nextCommit) := by
  intro w₀ w
  unfold commitNext getBatch
  rw [safe_bind, safe_bind, safe_read]
  refine (safe_ret _).mpr ?_
  cases hlookup : w.state.lane.pendingBatches.lookup nextCommit with
  | none => exact ⟨0, rfl, (laneBooks _ _).refl _⟩
  | some entry =>
    obtain ⟨task, batch⟩ := entry
    change ((do popBatch nextCommit; v.resolveTaken streaming task batch) >>= fun _ =>
      pure (nextCommit + 1)).Safe _ _ _ _ _
    rw [safe_bind]
    exact (safe_popBatch_books hv streaming hlookup).mono (fun _ _ w' h => ⟨0, rfl, h⟩)
      fun _ _ _ h => h

omit hv in
/-- So does advancing the number of the next commit. -/
theorem tracks_advanceCommit {helper : ℕ → PipelineDelivery α χ ℕ}
    (hhelper : ∀ n, TracksBatch 0 0 (helper n)) : TracksBatch 0 0 (advanceCommit helper) :=
  books_quiet_bind within_read fun _ => tracks_bind (hhelper _) (fun _ => tracks_modify
    (fun _ hs => ⟨hs.1, hs.2.nodup, hs.2.fresh⟩)
    (fun s => (add_zero (RunState.unaccounted PipelineState.rows s)).symm) fun _ => rfl)
    (zero_add 0) (zero_add 0)

/-- A batch that does not enter the stage is counted when it is submitted. -/
theorem books_submit (batch : SourceBatch α χ) :
    (v.submit batch).Books (laneBooks BatchLaneInv PipelineState.rows) CleanWrites
      fun submitted d => d = if submitted.isSome then 0 else (-(batch.rows.length : ℤ), 0) := by
  refine books_bind (tracks_of_quiet queueInv_batchLaneInv (hv.enter batch)) fun entered d hd => ?_
  rw [hd]
  cases entered with
  | inl result =>
    refine books_bind (δ := fun _ d => d = (-(batch.rows.length : ℤ), 0)) ?_ fun _ d hd =>
      books_ret (by rw [hd]; simp)
    exact books_quiet_bind within_read fun _ =>
      tracks_bind (tracks_of_quiet queueInv_batchLaneInv (unbooked_note _))
      (fun _ => hv.finalize batch result) (zero_add _) (zero_add 0)
  | inr task => exact books_ret (by simp)

/-- The records of a batch are consumed, and either counted or left in the dictionary. -/
theorem tracks_streamBatch (fuel limit : ℕ) (batch : SourceBatch α χ) :
    TracksBatch 0 batch.rows.length (v.streamBatch fuel limit batch) := by
  have hlimit : TracksBatch 0 0 (iterate (v.limitRound fuel limit) fuel ()) := by
    refine moves_iterate (fun _ => ?_) fuel ()
    refine books_quiet_bind within_read fun _ => books_ite (books_ret rfl) ?_
    refine tracks_bind (tracks_advanceCommit (tracks_drainReady hv fuel true)) (fun _ => ?_)
      (zero_add 0) (zero_add 0)
    refine books_quiet_bind within_read fun _ => books_ite (books_ret rfl) ?_
    exact tracks_bind (tracks_advanceCommit (tracks_commitNext hv true)) (fun _ => books_ret rfl)
      (zero_add 0) (zero_add 0)
  refine tracks_bind (tracks_incConsumed queueInv_batchLaneInv _) (e := -batch.rows.length) (n := 0)
    (fun _ => ?_)
    (add_neg_cancel _) (add_zero _)
  refine books_bind (books_submit hv batch) fun submitted d hd => ?_
  rw [hd]
  cases submitted with
  | none => exact hlimit.mono fun _ d hd => by rw [hd]; simp
  | some task =>
    refine books_bind (δ := fun _ d => d = (-(batch.rows.length : ℤ), 0)) ?_ fun _ d hd =>
      hlimit.mono fun _ d' hd' => by rw [hd, hd']; simp
    refine tracks_modify (fun s hs => ⟨hs.1, hs.2.push task batch⟩) (fun s => ?_) fun _ => rfl
    simp only [RunState.unaccounted, RunState.outstanding, RunState.balance,
      PipelineState.rows_push]
    push_cast
    ring

/-- So does draining the pipeline at the end of the stream. -/
theorem tracks_drainPending (fuel : ℕ) : TracksBatch 0 0 (v.drainPending fuel) := by
  refine moves_attempt (n := 0) (moves_iterate (fun _ => ?_) fuel ()) (fun _ => books_ret rfl)
    (fun exc => yields_of_last fun _ => yields_raise exc) (add_zero 0)
  refine books_quiet_bind within_read fun _ => books_ite (books_ret rfl) ?_
  refine tracks_bind (tracks_of_quiet queueInv_batchLaneInv (unbooked_invoke _)) (fun _ => tracks_bind
    (tracks_of_quiet queueInv_batchLaneInv (unbooked_invoke _)) (fun _ => tracks_bind
      (tracks_advanceCommit (tracks_drainReady hv fuel false)) (fun _ => ?_) (zero_add 0)
      (zero_add 0)) (zero_add 0) (zero_add 0)) (zero_add 0) (zero_add 0)
  refine books_quiet_bind within_read fun _ => books_ite (books_ret rfl) ?_
  exact tracks_bind (tracks_advanceCommit (tracks_commitNext hv false)) (fun _ => books_ret rfl)
    (zero_add 0) (zero_add 0)

omit hv in
/-- A round that leaves the loop leaves no pending batch. -/
def NonePending (next : Unit ⊕ Unit) (s : RunState (PipelineState α χ) α χ) : Prop :=
  ∀ u, next = .inr u → s.lane.pendingBatches = []

omit hv in
/-- The lane stops when no batch is pending. -/
theorem yields_drainPending (fuel : ℕ) :
    (v.drainPending fuel).Yields CleanWrites fun _ s => s.lane.pendingBatches = [] := by
  intro w₀ w
  unfold drainPending
  rw [safe_bind, safe_attempt]
  have hloop : (iterate (v.drainRound fuel) fuel ()).Yields CleanWrites
      fun _ s => s.lane.pendingBatches = [] := by
    refine yields_iterate (fun _ w₀ w => ?_) fuel ()
    unfold drainRound
    rw [safe_bind, safe_read]
    split
    · rename_i hempty
      exact fun _ _ => List.isEmpty_iff.mp hempty
    · change Safe _ (fun next _ w' => NonePending next w'.state) _ _ _ _
      refine yields_of_last (fun _ => yields_of_last fun _ => yields_of_last fun _ w₀ w => ?_) w₀ w
      rw [safe_bind, safe_read]
      split
      · rename_i hempty
        exact fun _ _ => List.isEmpty_iff.mp hempty
      · refine yields_of_last (fun _ _ _ => ?_) w₀ w
        exact fun u h => absurd h (by simp)
  refine (hloop w₀ w).mono (fun _ _ w' h => h) fun exc w₁ w' _ => ?_
  exact yields_of_last (P := fun _ s => s.lane.pendingBatches = []) (fun _ => yields_raise exc) w₁ w'

/-- A pipelined lane that returns has consumed the rows of all batches, and none is pending. -/
theorem tracks_runPipelined (fuel limit : ℕ) (batches : List (SourceBatch α χ)) :
    TracksBatch 0 (batches.map fun batch => batch.rows.length).sum
      (v.runPipelined fuel limit batches) := by
  refine moves_attempt (n := 0)
    (tracks_forEach queueInv_batchLaneInv (tracks_streamBatch hv fuel limit) batches)
    (fun _ => tracks_drainPending hv fuel) (fun exc => ?_) (add_zero _)
  dsimp only
  split
  · exact yields_of_last fun _ => yields_raise exc
  · exact yields_of_last fun _ => yields_raise exc

omit hv in
/-- The pipelined lane returns with nothing pending. -/
theorem yields_runPipelined (fuel limit : ℕ) (batches : List (SourceBatch α χ)) :
    (v.runPipelined fuel limit batches).Yields CleanWrites
      fun _ s => s.lane.pendingBatches = [] := by
  refine yields_of_last fun streamed => ?_
  cases streamed with
  | ok u => exact yields_drainPending fuel
  | error exc =>
    dsimp only
    split
    · exact yields_of_last fun _ => yields_raise exc
    · exact yields_of_last fun _ => yields_raise exc

end PipelinedVariant

namespace ExecutionCoordinator

variable [DecidableEq α] [DecidableEq χ] (c : ExecutionCoordinator α χ)

/-- The variant for batches of records counts the rows of every batch. -/
theorem countsBatches_listVariant (stage : PipelinedStage) :
    (c.listVariant stage).CountsBatches where
  enter batch := by
    refine unbooked_of_onlyHooks (within_bind (MiddlewareChain.onlyHooks_applyStages _ _) fun _ =>
      within_ite (within_ret _) ?_)
    exact within_bind (onlyHooks_invoke _) fun _ => within_ret _
  collect task := unbooked_of_onlyHooks (within_catchException
    (within_bind (onlyHooks_invoke _) fun _ => within_bind (within_ofExcept _) fun _ =>
      MiddlewareChain.onlyHooks_applyStages _ _) fun _ => within_ret _)
  finalize := c.tracks_finalizeListBatchResult queueInv_batchLaneInv

/-- A run of the batch lane: the rows of all batches are consumed, and nothing waits at its end. -/
theorem safe_runBatchLane_books (harrow : c.arrowChain = true → c.chain = []) (fuel : ℕ)
    (batches : List (SourceBatch α χ)) {w₀ w : RunWorld (PipelineState α χ) α χ}
    (hwrites : w.state.pendingWrites = []) (hlane : w.state.lane = .empty) :
    (c.runBatchLane fuel batches).Safe (.alone CleanWrites (fun _ _ => True) True)
      (fun _ _ w' => w'.state.EndOfRun PipelineState.rows w.state
        (batches.map fun batch => batch.rows.length).sum) (fun _ _ _ => True) w₀ w := by
  unfold runBatchLane
  cases hstage : c.chain.firstPipelinedBatchStage with
  | none =>
    have hInv : QueueInv fun s : RunState (PipelineState α χ) α χ =>
        s.pendingWrites = [] ∧ s.lane = .empty := fun s s' hqueue hs =>
      ⟨(congrArg QueueState.pendingWrites hqueue).trans hs.1,
        (congrArg QueueState.lane hqueue).trans hs.2⟩
    have hflushed : (c.runSequentialBatches batches : PipelineDelivery α χ Unit).Yields CleanWrites
        fun _ s => s.hot = {} := yields_of_last fun _ _ _ => rfl
    have htracks : Tracks _ PipelineState.rows 0 (batches.map fun batch => batch.rows.length).sum
        (c.runSequentialBatches batches : PipelineDelivery α χ Unit) :=
      c.tracks_runSequentialBatches hInv harrow batches
    refine (safe_and_returns (htracks w₀ w) (hflushed w₀ w)).mono (fun _ _ w' h => ?_)
      fun _ _ _ h => h
    obtain ⟨⟨d, rfl, hrel⟩, hhot⟩ := h
    obtain ⟨hs, hunaccounted, hconsumed⟩ := hrel ⟨hwrites, hlane⟩
    exact ⟨hhot, hs.1, by rw [hs.2]; rfl, hunaccounted.trans (add_zero _), hconsumed⟩
  | some stage =>
    have hpipelined : ((c.listVariant stage).runPipelined fuel (c.stageLimit stage) batches >>=
        fun _ => hotFlush).Safe (.alone CleanWrites (fun _ _ => True) True)
        (fun _ _ w' => w'.state.EndOfRun PipelineState.rows w.state
          (batches.map fun batch => batch.rows.length).sum) (fun _ _ _ => True) w₀ w := by
      have hempty : ((c.listVariant stage).runPipelined fuel (c.stageLimit stage) batches >>=
          fun _ => hotFlush).Yields CleanWrites
          fun _ s => s.hot = {} ∧ s.lane.pendingBatches = [] := by
        intro w₀ w
        rw [safe_bind]
        exact (PipelinedVariant.yields_runPipelined fuel _ batches w₀ w).mono
          (fun _ _ w' h => ⟨rfl, h⟩) fun _ _ _ h => h
      have htracks : TracksBatch 0 (batches.map fun batch => batch.rows.length).sum
          ((c.listVariant stage).runPipelined fuel (c.stageLimit stage) batches >>=
            fun _ => hotFlush) :=
        tracks_bind (PipelinedVariant.tracks_runPipelined (c.countsBatches_listVariant stage) fuel _
          batches) (fun _ => tracks_hotFlush queueInv_batchLaneInv) (add_zero 0) (add_zero _)
      refine (safe_and_returns (htracks w₀ w) (hempty w₀ w)).mono (fun _ _ w' h => ?_)
        fun _ _ _ h => h
      obtain ⟨⟨d, rfl, hrel⟩, hhot, hpending⟩ := h
      obtain ⟨hs, hunaccounted, hconsumed⟩ := hrel ⟨hwrites, hlane ▸ PipelineState.keyed_empty⟩
      refine ⟨hhot, hs.1, ?_, hunaccounted.trans (add_zero _), hconsumed⟩
      rw [PipelineState.rows, hpending]
      rfl
    have hchain : c.chain ≠ [] := fun h => by
      rw [h] at hstage
      cases hstage
    dsimp only
    unfold runPipelinedBatches
    split
    · split
      · trivial
      · rename_i harrowChain
        exact absurd (harrow (Bool.eq_true_of_not_eq_false harrowChain)) hchain
    · exact hpipelined

/-! ## The linear lane -/

omit [DecidableEq α] [DecidableEq χ] in
/-- Taking a record from the source consumes it. -/
theorem tracks_takeRecord {Inv : RunState ℓ α χ → Prop} {load : ℓ → ℕ} (hInv : QueueInv Inv)
    (record : SourceRecord α χ) :
    Tracks Inv load 1 1 (takeRecord record : Delivery ℓ α χ Unit) :=
  tracks_bind (tracks_of_quiet hInv (unbooked_note _)) (fun _ => tracks_bind (tracks_consume hInv 1)
    (fun _ => tracks_modify (fun s hs => hInv s _ rfl hs)
      (fun s => (add_zero (RunState.unaccounted load s)).symm) fun _ => rfl)
    (add_zero _) (add_zero _)) (zero_add _) (zero_add _)

omit [DecidableEq χ] in
/-- Processing a record counts nothing. -/
theorem unbooked_processOutcome (record : α) :
    Unbooked (c.chain.processOutcome record : Delivery ℓ α χ (MiddlewareChain.RecordOutcome α)) :=
  unbooked_of_onlyHooks (MiddlewareChain.onlyHooks_processStages _ _ _)

omit [DecidableEq α] [DecidableEq χ] in
/-- The source has ended without an error, or the error is kept. -/
theorem safe_catchSourceError_books {Inv : RunState ℓ α χ → Prop} {load : ℓ → ℕ} {d : ℤ} {n : ℕ}
    {p : Delivery ℓ α χ Unit} (hp : Tracks Inv load d n p) (w₀ w : RunWorld ℓ α χ) :
    (catchSourceError p).Safe (.alone CleanWrites (fun _ _ => True) True)
      (fun sourceError _ w' => sourceError = none → (laneBooks Inv load).rel (d, n) w.state w'.state)
      (fun _ _ _ => True) w₀ w := by
  unfold catchSourceError
  rw [safe_catchException, safe_bind]
  refine (hp w₀ w).mono (fun _ _ w' h _ => ?_) fun exc w₁ w' _ => ?_
  · obtain ⟨n, rfl, hrel⟩ := h
    exact hrel
  · split
    · exact fun h => absurd h (by simp)
    · trivial

omit [DecidableEq α] [DecidableEq χ] in
/-- The counters are committed, the pending writes are flushed, and an error of the source is raised. -/
theorem safe_flushLane_books (load : ℓ → ℕ) [DecidableEq α] [DecidableEq χ]
    (sourceError : Option Exc) {w₀ w : RunWorld ℓ α χ} :
    (do hotFlush; c.delivery.flushPendingWrites; raiseSourceError sourceError :
      Delivery ℓ α χ Unit).Safe (.alone CleanWrites (fun _ _ => True) True)
      (fun _ _ w' => sourceError = none ∧ w'.state.hot = {} ∧ w'.state.pendingWrites = [] ∧
        w'.state.lane = w.state.lane ∧ w'.state.unaccounted load = w.state.unaccounted load ∧
        w'.state.consumedSoFar = w.state.consumedSoFar) (fun _ _ _ => True) w₀ w := by
  rw [safe_bind]
  unfold hotFlush
  refine safe_modify_of fun w₁ hstate _ => ?_
  rw [safe_bind]
  refine (c.delivery.safe_flushPendingWrites_books false w₀ w₁).mono (fun _ w₂ w' h => ?_)
    fun _ _ _ h => h
  obtain ⟨⟨houtstanding, hintake, hlane, -⟩, hwrites⟩ := h
  cases sourceError with
  | some exc => trivial
  | none =>
    simp only [RunState.intake, Prod.mk.injEq] at hintake
    refine ⟨rfl, hintake.1.trans (by rw [hstate]), hwrites, hlane.trans (by rw [hstate]), ?_, ?_⟩
    · rw [RunState.unaccounted, RunState.unaccounted, houtstanding, hlane, hstate]
      simp [RunState.outstanding, RunState.balance]
    · rw [RunState.consumedSoFar, hintake.1, hintake.2, hstate]
      simp [RunState.consumedSoFar]

/-- The invariant of the lane without the buffer. -/
def QueueLaneInv (s : RunState (List (PendingWrite α χ)) α χ) : Prop := s.lane = []

omit [DecidableEq α] [DecidableEq χ] in
/-- That of the linear lane without the buffer is only that the buffer is empty. -/
theorem queueInv_queueLaneInv : QueueInv (QueueLaneInv (α := α) (χ := χ)) :=
  fun _ _ hqueue hs => (congrArg QueueState.lane hqueue).trans hs

/-- A record goes through the chain and to the delivery engine. -/
theorem tracks_queueRecord (fuel : ℕ) (record : SourceRecord α χ) :
    Tracks QueueLaneInv List.length 0 1 (c.queueRecord fuel record) := by
  have hdeliver : ∀ outcome, Tracks QueueLaneInv List.length (-1) 0
      (c.deliverRecord fuel record outcome) := fun outcome =>
    books_ite (tracks_of_takes (fun _ _ _ hlane hs => hlane.trans hs)
        (c.delivery.takes_queueProcessedRecord _ _ _ _ _ _ _))
      (tracks_of_counts queueInv_queueLaneInv (c.delivery.counts_writeProcessedRecord _ _ _ _ _))
  refine tracks_bind (tracks_takeRecord queueInv_queueLaneInv record) (fun _ => tracks_bind
    (tracks_of_quiet queueInv_queueLaneInv (c.unbooked_processOutcome _)) (fun outcome => books_ite
      (tracks_bind (tracks_of_quiet queueInv_queueLaneInv (unbooked_note _))
        (fun _ => hdeliver outcome) (zero_add _) rfl) (hdeliver outcome)) (zero_add _) rfl)
    (by simp) (add_zero _)

/-- A run of the lane without the buffer. -/
theorem safe_runQueueLane_books (fuel : ℕ) (records : List (SourceRecord α χ))
    {w₀ w : RunWorld (List (PendingWrite α χ)) α χ} (hlane : w.state.lane = []) :
    (c.runQueueLane fuel records).Safe (.alone CleanWrites (fun _ _ => True) True)
      (fun _ _ w' => w'.state.EndOfRun List.length w.state records.length) (fun _ _ _ => True)
      w₀ w := by
  unfold runQueueLane
  rw [safe_bind]
  refine (safe_catchSourceError_books (tracks_forEach queueInv_queueLaneInv
    (c.tracks_queueRecord fuel) records) w₀ w).mono (fun sourceError w₁ w₂ h => ?_) fun _ _ _ h => h
  refine (c.safe_flushLane_books List.length sourceError).mono (fun _ _ w' h' => ?_)
    fun _ _ _ h => h
  obtain ⟨hnone, hhot, hwrites, hlane', hunaccounted, hconsumed⟩ := h'
  obtain ⟨hs, hunaccounted₂, hconsumed₂⟩ := h hnone hlane
  refine ⟨hhot, hwrites, by rw [hlane', hs]; rfl, ?_, ?_⟩
  · rw [hunaccounted, hunaccounted₂, add_zero]
  · rw [hconsumed, hconsumed₂]
    simp

/-! ### Through the buffer -/

/-- The invariant of the lane with the buffer, between two records. -/
structure BufferLaneInv (writerBatchSize : ℕ) (s : RunState (List (PendingWrite α χ)) α χ) :
    Prop where
  flushed : s.pendingWrites = []
  room : s.lane.length < writerBatchSize
  unowned : s.Unowned

omit [DecidableEq α] [DecidableEq χ] in
/-- That of the linear lane with a buffer is about the queue and the buffer. -/
theorem queueInv_bufferLaneInv (n : ℕ) : QueueInv (BufferLaneInv (α := α) (χ := χ) n) := by
  intro s s' hqueue hs
  refine ⟨(congrArg QueueState.pendingWrites hqueue).trans hs.flushed, ?_, ?_⟩
  · rw [show s'.lane = s.lane from congrArg QueueState.lane hqueue]
    exact hs.room
  · rw [RunState.Unowned, show s'.pendingWriteUsesOwner = s.pendingWriteUsesOwner from
      congrArg QueueState.pendingWriteUsesOwner hqueue]
    exact hs.unowned

/-- The records of a batch are queued; the pending writes are flushed when they make a batch. -/
theorem safe_queueBatch_books (huses : c.usesOwner = false) (fuel : ℕ)
    (items : List (PendingWrite α χ)) {w₀ w : RunWorld (List (PendingWrite α χ)) α χ}
    (hunowned : w.state.Unowned) (hroom : w.state.pendingWrites.length < c.writerBatchSize)
    (hfits : w.state.pendingWrites.length + items.length ≤ c.writerBatchSize) :
    (c.queueBatch fuel items).Safe (.alone CleanWrites (fun _ _ => True) True)
      (fun _ _ w' => (queueBooks _ α χ false).rel (-(items.length : ℤ)) w.state w'.state ∧
        w'.state.pendingWrites.length =
          if w.state.pendingWrites.length + items.length = c.writerBatchSize then 0
          else w.state.pendingWrites.length + items.length) (fun _ _ _ => True) w₀ w := by
  induction items generalizing w₀ w with
  | nil =>
    refine ⟨(queueBooks _ α χ false).refl _, ?_⟩
    rw [List.length_nil, add_zero, if_neg hroom.ne]
  | cons item items ih =>
    unfold queueBatch
    rw [safe_bind]
    refine (c.delivery.safe_queueSuccessRecord_books huses fuel item.processed item.raw
      item.checkpoint item.onSuccess hunowned).mono (fun _ w₁ w₂ h => ?_) fun _ _ _ h => h
    obtain ⟨hrel, hlength⟩ := h
    rw [List.length_cons] at hfits ⊢
    have hlength₂ : w₂.state.pendingWrites.length < c.writerBatchSize ∧
        w₂.state.pendingWrites.length + items.length ≤ c.writerBatchSize := by
      rw [hlength]
      split <;> omega
    refine (ih (hrel.2.2.2 rfl hunowned) hlength₂.1 hlength₂.2).mono (fun _ _ w' h => ?_)
      fun _ _ _ h => h
    refine ⟨?_, ?_⟩
    · have htrans := (queueBooks _ α χ false).trans hrel h.1
      rwa [show (-1 + -(items.length : ℤ)) = -((items.length + 1 : ℕ) : ℤ) by push_cast; ring]
        at htrans
    · rw [h.2]
      by_cases hfull : c.writerBatchSize ≤ w.state.pendingWrites.length + 1
      · rw [if_pos hfull] at hlength
        rw [if_neg (by omega), if_pos (by omega)]
        omega
      · rw [if_neg hfull] at hlength
        rw [hlength, add_assoc, add_comm 1]

/-- Emptying a buffer of at most a batch moves its records into the books of the engine; a full batch
leaves no pending writes. -/
theorem safe_emptyBuffer_books (huses : c.usesOwner = false) (fuel : ℕ)
    {w₀ w : RunWorld (List (PendingWrite α χ)) α χ} (hwrites : w.state.pendingWrites = [])
    (hunowned : w.state.Unowned) (hfits : w.state.lane.length ≤ c.writerBatchSize) :
    (c.emptyBuffer fuel).Safe (.alone CleanWrites (fun _ _ => True) True)
      (fun _ _ w' => w'.state.lane = [] ∧ w'.state.Unowned ∧
        w'.state.unaccounted List.length = w.state.unaccounted List.length ∧
        w'.state.consumedSoFar = w.state.consumedSoFar ∧
        (c.directFlushEligible = true ∨ w.state.lane.length = c.writerBatchSize →
          w'.state.pendingWrites = [])) (fun _ _ _ => True) w₀ w := by
  unfold emptyBuffer takeBuffer
  rw [safe_bind, safe_bind, safe_read, safe_bind]
  refine safe_modify_of fun w₁ hstate _ => (safe_ret _).mpr ?_
  have hunaccounted₁ : w₁.state.outstanding = w.state.outstanding := by rw [hstate]; rfl
  have hlane₁ : w₁.state.lane = [] := by rw [hstate]
  have hwrites₁ : w₁.state.pendingWrites = [] := by rw [hstate]; exact hwrites
  have hunowned₁ : w₁.state.Unowned := by rw [hstate]; exact hunowned
  have hconsumed₁ : w₁.state.consumedSoFar = w.state.consumedSoFar := by rw [hstate]; rfl
  have hposition : ∀ s' : RunState (List (PendingWrite α χ)) α χ,
      (queueBooks _ α χ false).rel (-(w.state.lane.length : ℤ)) w₁.state s' →
      s'.lane = [] ∧ s'.Unowned ∧ s'.unaccounted List.length = w.state.unaccounted List.length ∧
        s'.consumedSoFar = w.state.consumedSoFar := by
    intro s' hrel
    obtain ⟨houtstanding, hintake, hlane, hkept⟩ := hrel
    simp only [RunState.intake, Prod.mk.injEq] at hintake
    refine ⟨hlane.trans hlane₁, hkept rfl hunowned₁, ?_, ?_⟩
    · rw [RunState.unaccounted, houtstanding, hunaccounted₁, hlane, hlane₁, RunState.unaccounted]
      simp [sub_eq_add_neg]
    · rw [← hconsumed₁, RunState.consumedSoFar, RunState.consumedSoFar, hintake.1, hintake.2]
  split
  · rename_i hdirect
    refine (c.delivery.counts_flushBatchDirect w.state.lane w₀ w₁).mono (fun _ _ w' h => ?_)
      fun _ _ _ h => h
    obtain ⟨n, rfl, hrel⟩ := h
    obtain ⟨hlane, hunowned', hunaccounted, hconsumed⟩ :=
      hposition w'.state (queueBooks_of_deliveryBooks _ _ _ hrel)
    refine ⟨hlane, hunowned', hunaccounted, hconsumed, fun _ => ?_⟩
    exact (congrArg QueueState.pendingWrites hrel.2.2).trans hwrites₁
  · rename_i hdirect
    have hlength₁ : w₁.state.pendingWrites.length = 0 := by rw [hwrites₁]; rfl
    refine (c.safe_queueBatch_books huses fuel w.state.lane hunowned₁
      (hlength₁ ▸ c.writerBatchSize_pos) (by omega)).mono (fun _ _ w' h => ?_) fun _ _ _ h => h
    obtain ⟨hlane, hunowned', hunaccounted, hconsumed⟩ := hposition w'.state h.1
    refine ⟨hlane, hunowned', hunaccounted, hconsumed, fun hfull => ?_⟩
    rw [hlength₁, zero_add, if_pos (hfull.resolve_left hdirect)] at h
    exact List.length_eq_zero_iff.mp h.2

/-- A record joins the buffer, which is emptied when it is full. -/
theorem tracks_pushBuffer (huses : c.usesOwner = false) (fuel : ℕ) (item : PendingWrite α χ) :
    Tracks (BufferLaneInv c.writerBatchSize) List.length (-1) 0
      (do
        let full ← c.pushBuffer item
        if full then c.emptyBuffer fuel else pure ()) := by
  refine tracks_of_safe fun w₀ w hs => ?_
  unfold pushBuffer
  rw [safe_bind, safe_bind]
  refine safe_modify_of fun w₁ hstate _ => ?_
  rw [safe_bind, safe_read]
  refine (safe_ret _).mpr ?_
  have hlength : w₁.state.lane.length = w.state.lane.length + 1 := by
    rw [hstate]
    exact List.length_append
  have hwrites : w₁.state.pendingWrites = [] := by rw [hstate]; exact hs.flushed
  have hunowned : w₁.state.Unowned := by rw [hstate]; exact hs.unowned
  have hconsumed : w₁.state.consumedSoFar = w.state.consumedSoFar := by rw [hstate]; rfl
  have hunaccounted : w₁.state.unaccounted List.length = w.state.unaccounted List.length + -1 := by
    rw [RunState.unaccounted, hlength, show w₁.state.outstanding = w.state.outstanding by
      rw [hstate]; rfl, RunState.unaccounted]
    push_cast
    ring
  have hroom := hs.room
  split
  · rename_i hfull
    have hfull := of_decide_eq_true hfull
    refine (c.safe_emptyBuffer_books huses fuel hwrites hunowned (by omega)).mono
      (fun _ _ w' h => ?_) fun _ _ _ h => h
    obtain ⟨hlane', hunowned', hunaccounted', hconsumed', hflushed⟩ := h
    refine ⟨⟨hflushed (.inr (by omega)), by rw [hlane']; exact c.writerBatchSize_pos, hunowned'⟩,
      hunaccounted'.trans hunaccounted, hconsumed'.trans hconsumed⟩
  · rename_i hfull
    have hfull : ¬ c.writerBatchSize ≤ w₁.state.lane.length := fun h =>
      hfull (decide_eq_true h)
    exact ⟨⟨hwrites, by omega, hunowned⟩, hunaccounted, hconsumed⟩

/-- A record that enters the buffer is consumed and waits, unless it is counted at once. -/
theorem tracks_bufferRecord (huses : c.usesOwner = false) (fuel : ℕ) (record : SourceRecord α χ) :
    Tracks (BufferLaneInv c.writerBatchSize) List.length 0 1 (c.bufferRecord fuel record) := by
  have hInv := queueInv_bufferLaneInv (α := α) (χ := χ) c.writerBatchSize
  refine tracks_bind (e := -1) (n := 0) (tracks_takeRecord hInv record) (fun _ => tracks_bind
    (tracks_of_quiet hInv (c.unbooked_processOutcome _)) (fun outcome => ?_) (zero_add _) (zero_add 0))
    (by simp) (add_zero _)
  cases outcome.1 with
  | none => exact tracks_of_counts hInv (c.delivery.counts_dropRecord _ _ _ _)
  | some value =>
    exact tracks_bind (tracks_of_quiet hInv (unbooked_note _))
      (fun _ => c.tracks_pushBuffer huses fuel _) (zero_add _) rfl

/-- What is left in the buffer goes into the books of the engine. -/
theorem safe_emptyRemaining_books (huses : c.usesOwner = false) (fuel : ℕ)
    {w₀ w : RunWorld (List (PendingWrite α χ)) α χ}
    (hs : BufferLaneInv c.writerBatchSize w.state) :
    (c.emptyRemaining fuel).Safe (.alone CleanWrites (fun _ _ => True) True)
      (fun _ _ w' => w'.state.lane = [] ∧ w'.state.pendingWrites = [] ∧
        w'.state.unaccounted List.length = w.state.unaccounted List.length ∧
        w'.state.consumedSoFar = w.state.consumedSoFar) (fun _ _ _ => True) w₀ w := by
  unfold emptyRemaining
  rw [safe_bind, safe_read]
  split
  · rename_i hempty
    exact ⟨List.isEmpty_iff.mp hempty, hs.flushed, rfl, rfl⟩
  · rw [safe_bind]
    refine (c.safe_emptyBuffer_books huses fuel hs.flushed hs.unowned hs.room.le).mono
      (fun _ w₁ w₂ h => ?_) fun _ _ _ h => h
    obtain ⟨hlane, -, hunaccounted, hconsumed, hflushed⟩ := h
    split
    · rename_i hdirect
      exact ⟨hlane, hflushed (.inl hdirect), hunaccounted, hconsumed⟩
    · refine (c.delivery.safe_flushPendingWrites_books false w₁ w₂).mono (fun _ _ w' h => ?_)
        fun _ _ _ h => h
      obtain ⟨⟨houtstanding, hintake, hlane', -⟩, hwrites⟩ := h
      simp only [RunState.intake, Prod.mk.injEq] at hintake
      refine ⟨hlane'.trans hlane, hwrites, ?_, ?_⟩
      · rw [← hunaccounted, RunState.unaccounted, RunState.unaccounted, houtstanding, hlane', add_zero]
      · rw [← hconsumed, RunState.consumedSoFar, RunState.consumedSoFar, hintake.1, hintake.2]

/-- A run of the lane with the buffer. -/
theorem safe_runBufferLane_books (huses : c.usesOwner = false) (fuel : ℕ)
    (records : List (SourceRecord α χ)) {w₀ w : RunWorld (List (PendingWrite α χ)) α χ}
    (hs : BufferLaneInv c.writerBatchSize w.state) :
    (c.runBufferLane fuel records).Safe (.alone CleanWrites (fun _ _ => True) True)
      (fun _ _ w' => w'.state.EndOfRun List.length w.state records.length) (fun _ _ _ => True)
      w₀ w := by
  unfold runBufferLane
  rw [safe_bind]
  refine (safe_catchSourceError_books (tracks_forEach (queueInv_bufferLaneInv _)
    (c.tracks_bufferRecord huses fuel) records) w₀ w).mono (fun sourceError w₁ w₂ h => ?_)
    fun _ _ _ h => h
  cases sourceError with
  | some exc =>
    refine yields_of_last (P := fun _ s => s.EndOfRun List.length w.state records.length)
      (fun _ => yields_of_last fun _ => yields_raise exc) w₁ w₂
  | none =>
    obtain ⟨hs₂, hunaccounted, hconsumed⟩ := h rfl hs
    rw [safe_bind]
    refine (c.safe_emptyRemaining_books huses fuel hs₂).mono (fun _ w₂ w₃ h => ?_) fun _ _ _ h => h
    obtain ⟨hlane, hwrites, hunaccounted', hconsumed'⟩ := h
    rw [safe_bind]
    unfold hotFlush
    refine safe_modify_of fun w' hstate _ => ?_
    have hempty : w'.state.lane.length = 0 := by
      rw [hstate]
      exact congrArg List.length hlane
    refine ⟨by rw [hstate], by rw [hstate]; exact hwrites, hempty, ?_, ?_⟩
    · rw [← add_zero (w.state.unaccounted List.length), ← hunaccounted, ← hunaccounted', hstate]
      simp [RunState.unaccounted, RunState.outstanding, RunState.balance]
    · rw [hstate]
      simp only [RunState.consumedSoFar] at hconsumed hconsumed' ⊢
      rw [show records.length = (records.map fun _ => 1).sum by simp, ← hconsumed, ← hconsumed']
      rfl

end ExecutionCoordinator

/-! ## The buffered lane -/

/-- How many records wait in the deque. -/
def BufferedState.waiting (b : BufferedState α χ) : ℕ := b.pendingRecords.length

/-- The programs of a variant count nothing themselves. -/
structure BufferedVariant.CountsNothing (v : BufferedVariant α χ) : Prop where
  submit : ∀ record value, Unbooked (v.submit record value)
  collect : ∀ entry, Unbooked (v.collect entry)

section Buffered

variable {Inv : RunState (BufferedState α χ) α χ → Prop}
  (hInv : ∀ s s' : RunState (BufferedState α χ) α χ, s'.intake = s.intake → Inv s → Inv s')

include hInv

/-- Records that are taken by the engine leave the books of the buffered lane. -/
theorem tracksBuffered_of_takes {uses : Bool} {p : BufferedDelivery α χ β} {n : ℤ}
    (hp : Takes uses n p) : Tracks Inv BufferedState.waiting (-n) 0 p :=
  tracks_of_takes (fun s s' hintake _ => hInv s s' hintake) hp

/-- A program off the books leaves those of the buffered lane alone. -/
theorem tracksBuffered_of_quiet {p : BufferedDelivery α χ β} (hp : Unbooked p) :
    Tracks Inv BufferedState.waiting 0 0 p :=
  tracksBuffered_of_takes hInv (takes_of_quiet hp : Takes false 0 p)

omit hInv in
/-- Committing makes an exception of the program one of the lane. -/
theorem tracks_committing {load : BufferedState α χ → ℕ} {streaming : Bool} {d : ℤ} {n : ℕ}
    {p : BufferedDelivery α χ Unit} (hp : Tracks Inv load d n p) :
    Tracks Inv load d n (ExecutionCoordinator.committing streaming p) :=
  moves_attempt (n := 0) hp (fun _ => books_ret rfl)
    (fun exc => yields_of_last fun _ => yields_of_last fun _ => yields_raise exc) (add_zero _)

/-- A change of the deque by records that are taken in or out. -/
theorem tracks_modifyBuffered {f : BufferedState α χ → BufferedState α χ} {d : ℤ}
    (hwaiting : ∀ b, (b.waiting : ℤ) = (f b).waiting + d) :
    Tracks Inv BufferedState.waiting d 0 (ExecutionCoordinator.modifyBuffered f) := by
  refine tracks_modify (fun s hs => hInv s _ rfl hs) (fun s => ?_) fun s => rfl
  have h := hwaiting s.lane
  simp only [RunState.unaccounted, RunState.outstanding, RunState.balance]
  linarith

namespace ExecutionCoordinator

variable [DecidableEq α] [DecidableEq χ] (c : ExecutionCoordinator α χ)
  {v : BufferedVariant α χ} (hv : v.CountsNothing)

omit hv in
/-- A dispatched record leaves the books of the lane. -/
theorem tracks_dispatchRecord (fuel : ℕ) (record : SourceRecord α χ)
    (outcome : MiddlewareChain.RecordOutcome α) :
    Tracks Inv BufferedState.waiting (-1) 0 (c.dispatchRecord fuel record outcome) :=
  tracks_bind (tracksBuffered_of_quiet hInv (unbooked_note _)) (fun _ => tracksBuffered_of_takes hInv
    (c.delivery.takes_dispatchProcessedResult _ _ _ _ _ _ _)) (zero_add _) (zero_add 0)

include hv

/-- A record that is taken out of the deque is counted or queued. -/
theorem safe_takeBufferedRecord_books (fuel : ℕ) (streaming : Bool) {entry : PendingRecord α χ}
    {rest : List (PendingRecord α χ)} {w₀ w : RunWorld (BufferedState α χ) α χ}
    (hrest : w.state.lane.pendingRecords = entry :: rest) :
    (c.takeBufferedRecord v fuel streaming entry).Safe (.alone CleanWrites (fun _ _ => True) True)
      (fun _ _ w' => (laneBooks Inv BufferedState.waiting).rel (0, 0) w.state w'.state)
      (fun _ _ _ => True) w₀ w := by
  unfold takeBufferedRecord modifyBuffered
  rw [safe_bind]
  refine safe_modify_of fun w₁ hstate _ => ?_
  have htaken : (laneBooks Inv BufferedState.waiting).rel (1, 0) w.state w₁.state := by
    intro hs
    rw [hstate]
    refine ⟨hInv w.state _ rfl hs, ?_, rfl⟩
    simp only [RunState.unaccounted, RunState.outstanding, RunState.balance, BufferedState.waiting,
      hrest, List.tail_cons, List.length_cons]
    push_cast
    ring
  have hresolve : Tracks Inv BufferedState.waiting (-1) 0
      (c.resolveBufferedRecord v fuel streaming entry) :=
    tracks_committing (tracks_bind (tracksBuffered_of_quiet hInv (hv.collect entry))
      (fun _ => c.tracks_dispatchRecord hInv fuel _ _) (zero_add _) (zero_add 0))
  refine (hresolve w₀ w₁).mono (fun _ _ w' h => ?_) fun _ _ _ h => h
  obtain ⟨d, rfl, hrel⟩ := h
  exact (laneBooks Inv BufferedState.waiting).trans htaken hrel

/-- Draining the ready records leaves the books balanced. -/
theorem tracks_drainReadyRecords (fuel : ℕ) (streaming : Bool) :
    Tracks Inv BufferedState.waiting 0 0 (c.drainReadyRecords v fuel streaming) := by
  refine moves_iterate (fun _ w₀ w => ?_) fuel ()
  unfold drainReadyRound
  rw [safe_bind, safe_read]
  split
  · exact ⟨0, rfl, (laneBooks _ _).refl _⟩
  · rename_i entry rest hrest
    -- whether the record is done does not change the state
    have hdone : ∀ (done : Bool) {w₀ w₁ : RunWorld (BufferedState α χ) α χ}, w₁.state = w.state →
        (if done then do
            c.takeBufferedRecord v fuel streaming entry
            pure (.inl ())
          else pure (.inr ()) : BufferedDelivery α χ (Unit ⊕ Unit)).Safe
          (.alone CleanWrites (fun _ _ => True) True)
          (fun _ _ w' => ∃ d, d = 0 ∧
            (laneBooks Inv BufferedState.waiting).rel d w.state w'.state)
          (fun _ _ _ => True) w₀ w₁ := by
      intro done w₀ w₁ hstate
      rw [← hstate] at hrest ⊢
      split
      · rw [safe_bind]
        exact (c.safe_takeBufferedRecord_books hInv hv fuel streaming hrest).mono
          (fun _ _ w' h => ⟨0, rfl, h⟩) fun _ _ _ h => h
      · exact ⟨0, rfl, (laneBooks _ _).refl _⟩
    cases entry.future with
    | none => exact hdone true rfl
    | some future =>
      rw [safe_bind]
      exact safe_perform_alone.mpr fun done _ => ⟨trivial, hdone done rfl⟩

/-- So does committing the next record. -/
theorem tracks_commitNextRecord (fuel : ℕ) (streaming : Bool) :
    Tracks Inv BufferedState.waiting 0 0 (c.commitNextRecord v fuel streaming) := by
  intro w₀ w
  unfold commitNextRecord
  rw [safe_bind, safe_read]
  split
  · exact ⟨0, rfl, (laneBooks _ _).refl _⟩
  · rename_i entry rest hrest
    exact (c.safe_takeBufferedRecord_books hInv hv fuel streaming hrest).mono
      (fun _ _ w' h => ⟨0, rfl, h⟩) fun _ _ _ h => h

/-- So does the loop that waits for room. -/
theorem tracks_limitRecords (fuel : ℕ) :
    Tracks Inv BufferedState.waiting 0 0 (iterate (c.limitRecordsRound v fuel) fuel ()) := by
  have hobserve : ∀ n, Tracks Inv BufferedState.waiting 0 0 (c.observeLimit n) := fun n =>
    books_ite (tracks_bind (tracksBuffered_of_quiet hInv (within_perform trivial))
      (fun _ => tracks_modifyBuffered hInv fun b => (add_zero _).symm) (zero_add 0) (zero_add 0))
      (books_ret rfl)
  refine moves_iterate (fun _ => ?_) fuel ()
  refine books_quiet_bind within_read fun s => books_ite (books_ret rfl) ?_
  refine tracks_bind (hobserve _) (fun _ => tracks_bind
    (c.tracks_drainReadyRecords hInv hv fuel true) (fun _ => ?_) (zero_add 0) (zero_add 0))
    (zero_add 0) (zero_add 0)
  refine books_quiet_bind within_read fun s => books_ite (books_ret rfl) ?_
  exact tracks_bind (c.tracks_commitNextRecord hInv hv fuel true) (fun _ => books_ret rfl)
    (zero_add 0) (zero_add 0)

omit hInv in
/-- A record is consumed, and counted, queued or left in the deque. -/
theorem tracks_streamRecord (fuel splitIndex : ℕ) (record : SourceRecord α χ) :
    Tracks (fun _ => True) BufferedState.waiting 0 1 (c.streamRecord v fuel splitIndex record) := by
  have htrue : ∀ s s' : RunState (BufferedState α χ) α χ, s'.intake = s.intake → True → True :=
    fun _ _ _ h => h
  have henter : Unbooked (c.enterRecord v splitIndex record) := by
    refine within_bind (unbooked_of_onlyHooks (MiddlewareChain.onlyHooks_processStages _ _ _))
      fun outcome => ?_
    cases outcome.1 with
    | none => exact within_ret _
    | some value => exact within_bind (hv.submit _ _) fun _ => within_ret _
  refine tracks_bind (e := -1) (n := 0) (tracks_consume (fun _ _ _ h => h) 1) (fun _ => tracks_bind
    (e := -1) (n := 0) (tracks_modify (fun _ h => h) (d := 0) (n := 0)
      (fun s => (add_zero (RunState.unaccounted BufferedState.waiting s)).symm) fun _ => rfl)
    (fun _ => tracks_bind (tracksBuffered_of_quiet htrue henter) (fun entered => ?_) (zero_add _)
      (zero_add 0)) (zero_add _) (zero_add 0)) (by simp) (add_zero _)
  cases entered with
  | inl outcome =>
    exact books_quiet_bind within_read fun _ => tracks_bind
      (tracksBuffered_of_quiet htrue (unbooked_note _)) (fun _ => tracks_committing
        (c.tracks_dispatchRecord htrue fuel _ _)) (zero_add _) (zero_add 0)
  | inr entry =>
    refine tracks_bind (tracks_modifyBuffered htrue (d := -1) fun b => ?_)
      (fun _ => c.tracks_limitRecords htrue hv fuel) (add_zero _) (zero_add 0)
    simp [BufferedState.waiting]

omit hInv hv in
/-- A round that leaves the loop leaves no pending record. -/
def NoneWaiting (next : Unit ⊕ Unit) (s : RunState (BufferedState α χ) α χ) : Prop :=
  ∀ u, next = .inr u → s.lane.pendingRecords = []

omit hInv in
/-- The lane drains until no record is pending, and flushes what is queued for the writer. -/
theorem safe_drainPendingRecords_books (fuel : ℕ) {w₀ w : RunWorld (BufferedState α χ) α χ}
    (hhot : w.state.hot = {}) :
    (c.drainPendingRecords v fuel).Safe (.alone CleanWrites (fun _ _ => True) True)
      (fun _ _ w' => w'.state.EndOfRun BufferedState.waiting w.state 0) (fun _ _ _ => True)
      w₀ w := by
  have hcommitted : ∀ s s' : RunState (BufferedState α χ) α χ, s'.intake = s.intake →
      s.hot = {} → s'.hot = {} := fun _ _ hintake hs => (congrArg Prod.fst hintake).trans hs
  have htracks : Tracks (fun s : RunState (BufferedState α χ) α χ => s.hot = {})
      BufferedState.waiting 0 0 (iterate (c.drainRecordsRound v fuel) fuel ()) := by
    refine moves_iterate (fun _ => ?_) fuel ()
    refine books_quiet_bind within_read fun s => books_ite (books_ret rfl) ?_
    refine tracks_bind (tracksBuffered_of_quiet hcommitted (unbooked_invoke _)) (fun _ => tracks_bind
      (tracksBuffered_of_quiet hcommitted (unbooked_invoke _)) (fun _ => tracks_bind
        (c.tracks_drainReadyRecords hcommitted hv fuel false) (fun _ => ?_) (zero_add 0) (zero_add 0))
        (zero_add 0) (zero_add 0)) (zero_add 0) (zero_add 0)
    refine books_quiet_bind within_read fun s => books_ite (books_ret rfl) ?_
    exact tracks_bind (c.tracks_commitNextRecord hcommitted hv fuel false) (fun _ => books_ret rfl)
      (zero_add 0) (zero_add 0)
  have hempty : (iterate (c.drainRecordsRound v fuel) fuel ()).Yields CleanWrites
      fun _ s => s.lane.pendingRecords = [] := by
    refine yields_iterate (fun _ w₀ w => ?_) fuel ()
    unfold drainRecordsRound
    rw [safe_bind, safe_read]
    split
    · rename_i hnone
      exact fun _ _ => List.isEmpty_iff.mp hnone
    · change Safe _ (fun next _ w' => NoneWaiting next w'.state) _ _ _ _
      refine yields_of_last (fun _ => yields_of_last fun _ => yields_of_last fun _ w₀ w => ?_) w₀ w
      rw [safe_bind, safe_read]
      split
      · rename_i hnone
        exact fun _ _ => List.isEmpty_iff.mp hnone
      · refine yields_of_last (fun _ _ _ => ?_) w₀ w
        exact fun u h => absurd h (by simp)
  unfold drainPendingRecords
  rw [safe_bind, safe_attempt, safe_bind]
  -- whatever is raised here is raised again after the abort
  have hraise : ∀ exc (w₁ w₂ : RunWorld (BufferedState α χ) α χ),
      (do abortPendingWork; raise exc : BufferedDelivery α χ Unit).Safe
        (.alone CleanWrites (fun _ _ => True) True)
        (fun _ _ w' => w'.state.EndOfRun BufferedState.waiting w.state 0) (fun _ _ _ => True)
        w₁ w₂ := fun exc w₁ w₂ => yields_of_last
    (P := fun _ s => s.EndOfRun BufferedState.waiting w.state 0) (fun _ => yields_raise exc) w₁ w₂
  refine (tracksBuffered_of_quiet hcommitted (unbooked_invoke .sleep) w₀ w).mono
    (fun _ w₁ w₂ h => ?_) fun exc w₁ w₂ _ => hraise exc w₁ w₂
  obtain ⟨d₂, rfl, hslept⟩ := h
  rw [safe_bind]
  refine (safe_and_returns (htracks w₁ w₂) (hempty w₁ w₂)).mono (fun _ w₁ w₃ h => ?_)
    fun exc w₁ w₂ _ => hraise exc w₁ w₂
  obtain ⟨⟨d₃, rfl, hdrained⟩, hnone⟩ := h
  obtain ⟨hhot₃, hunaccounted₃, hconsumed₃⟩ := (laneBooks _ _).trans hslept hdrained hhot
  unfold committing
  rw [safe_bind, safe_attempt]
  refine (c.delivery.safe_flushPendingWrites_books false w₁ w₃).mono (fun _ _ w' h => ?_)
    fun exc w₁ w₂ _ _ => ⟨trivial, hraise exc w₁ _⟩
  obtain ⟨⟨houtstanding, hintake, hlane, -⟩, hwrites⟩ := h
  refine ⟨hcommitted _ _ hintake hhot₃, hwrites, ?_, ?_, ?_⟩
  · rw [BufferedState.waiting, hlane, hnone]
    rfl
  · rw [RunState.unaccounted, houtstanding, hlane, add_zero]
    exact hunaccounted₃.trans (add_zero _)
  · simp only [RunState.intake, Prod.mk.injEq] at hintake
    rw [RunState.consumedSoFar, hintake.1, hintake.2]
    exact hconsumed₃

omit hInv in
/-- A run of the lane for one variant. -/
theorem safe_runBuffered_books (fuel splitIndex : ℕ) (records : List (SourceRecord α χ))
    {w₀ w : RunWorld (BufferedState α χ) α χ} :
    (c.runBuffered v fuel splitIndex records).Safe (.alone CleanWrites (fun _ _ => True) True)
      (fun _ _ w' => w'.state.EndOfRun BufferedState.waiting w.state records.length)
      (fun _ _ _ => True) w₀ w := by
  unfold runBuffered
  rw [safe_bind, safe_attempt]
  refine (tracks_forEach (fun _ _ _ h => h) (c.tracks_streamRecord hv fuel splitIndex) records
    w₀ w).mono (fun _ w₁ w₂ h => ?_) fun exc w₁ w₂ _ => ?_
  · obtain ⟨d, rfl, hrel⟩ := h
    obtain ⟨-, hunaccounted, hconsumed⟩ := hrel trivial
    rw [safe_bind]
    unfold hotFlush
    refine safe_modify_of fun w₃ hstate _ => ?_
    refine (c.safe_drainPendingRecords_books hv fuel (by rw [hstate])).mono (fun _ _ w' h => ?_)
      fun _ _ _ h => h
    refine ⟨h.committed, h.flushed, h.emptied, h.unaccounted.trans ?_, h.consumed.trans ?_⟩
    · rw [← add_zero (w.state.unaccounted _), ← hunaccounted, hstate]
      simp [RunState.unaccounted, RunState.outstanding, RunState.balance]
    · rw [show records.length = (records.map fun _ => 1).sum by simp, ← hconsumed, hstate]
      rfl
  · refine yields_of_last (P := fun _ s => s.EndOfRun BufferedState.waiting w.state records.length)
      (fun _ => ?_) w₁ w₂
    dsimp only
    split
    · exact yields_of_last fun _ => yields_raise exc
    · exact yields_of_last fun _ => yields_raise exc

end ExecutionCoordinator

end Buffered

namespace ExecutionCoordinator

variable [DecidableEq α] [DecidableEq χ] (c : ExecutionCoordinator α χ)

omit [DecidableEq χ] in
/-- The variant with a single buffered stage counts nothing itself. -/
theorem countsNothing_singleVariant (stage : BufferedStageSpec) :
    (c.singleVariant stage).CountsNothing where
  submit record value := by
    refine unbooked_of_onlyHooks (within_bind (within_attempt (onlyHooks_invoke _)) fun submitted => ?_)
    cases submitted with
    | ok future => exact within_ret _
    | error exc => exact within_ite (within_ret _) (within_raise _)
  collect entry := by
    refine unbooked_of_onlyHooks ?_
    change OnlyHooks (c.collectSingleBufferedRecord stage entry)
    unfold collectSingleBufferedRecord
    cases entry.future with
    | none => exact within_ret _
    | some future =>
      refine within_bind (within_attempt (onlyHooks_invoke _)) fun awaited => ?_
      rcases awaited with exc | (_ | value) | outcome
      · exact within_ite (within_ret _) (within_raise _)
      · exact within_ret _
      · exact within_ite (MiddlewareChain.onlyHooks_processStages _ _ _) (within_ret _)
      · exact within_ret _

omit [DecidableEq χ] in
/-- Nor does the variant with several buffered stages. -/
theorem countsNothing_multiVariant (first : BufferedStageSpec) :
    (c.multiVariant first).CountsNothing where
  submit record value := within_bind (within_perform trivial) fun _ => within_ret _
  collect entry := by
    refine unbooked_of_onlyHooks ?_
    change OnlyHooks (c.collectBufferedRecord first entry)
    unfold collectBufferedRecord
    cases entry.future with
    | none => exact within_ret _
    | some future =>
      refine within_bind (within_attempt (onlyHooks_invoke _)) fun awaited => ?_
      rcases awaited with exc | (_ | value) | outcome
      · exact within_ite (within_ret _) (within_raise _)
      · exact within_ret _
      · exact MiddlewareChain.onlyHooks_processStages _ _ _
      · exact within_ret _

/-- A run of the buffered lane. -/
theorem safe_runBufferedLane_books (fuel : ℕ) (stages : List BufferedStageSpec) (currentLimit : ℕ)
    (records : List (SourceRecord α χ)) {w₀ w : RunWorld (BufferedState α χ) α χ} :
    (c.runBufferedLane fuel stages currentLimit records).Safe
      (.alone CleanWrites (fun _ _ => True) True)
      (fun _ _ w' => w'.state.EndOfRun BufferedState.waiting w.state records.length)
      (fun _ _ _ => True) w₀ w := by
  unfold runBufferedLane
  cases stages with
  | nil => trivial
  | cons first rest =>
    dsimp only
    unfold modifyBuffered
    rw [safe_bind]
    refine safe_modify_of fun w₁ hstate _ => ?_
    have hstart : ∀ {w' : RunWorld (BufferedState α χ) α χ},
        w'.state.EndOfRun BufferedState.waiting w₁.state records.length →
        w'.state.EndOfRun BufferedState.waiting w.state records.length := by
      intro w' h
      rw [hstate] at h
      exact ⟨h.committed, h.flushed, h.emptied, h.unaccounted, h.consumed⟩
    split
    · exact (c.safe_runBuffered_books (c.countsNothing_singleVariant first) fuel _ records).mono
        (fun _ _ _ h => hstart h) fun _ _ _ h => h
    · exact (c.safe_runBuffered_books (c.countsNothing_multiVariant first) fuel _ records).mono
        (fun _ _ _ h => hstart h) fun _ _ _ h => h

/-- A run of the linear lane that runs alone. -/
theorem safe_runLinearLane_books (huses : c.usesOwner = false) (fuel : ℕ)
    (records : List (SourceRecord α χ)) {w₀ w : RunWorld (List (PendingWrite α χ)) α χ}
    (hwrites : w.state.pendingWrites = []) (hlane : w.state.lane = [])
    (hunowned : w.state.Unowned) :
    (c.runLinearLane fuel records).Safe (.alone CleanWrites (fun _ _ => True) True)
      (fun _ _ w' => w'.state.EndOfRun List.length w.state records.length) (fun _ _ _ => True)
      w₀ w := by
  unfold runLinearLane
  split
  · exact c.safe_runBufferLane_books huses fuel records
      ⟨hwrites, by rw [hlane]; exact c.writerBatchSize_pos, hunowned⟩
  · exact c.safe_runQueueLane_books fuel records hlane

end ExecutionCoordinator

/-! ## The accounts of a run -/

namespace LaneInput

/-- How many records the source gives. -/
def size : LaneInput α χ → ℕ
  | .linear records => records.length
  | .batch batches => (batches.map fun batch => batch.rows.length).sum
  | .buffered _ _ records => records.length

/-- The objects of the lane at the start of a run. -/
def start : (input : LaneInput α χ) → input.Objects
  | .linear _ => []
  | .batch _ => PipelineState.empty
  | .buffered _ currentLimit _ => ⟨[], currentLimit⟩

end LaneInput

/-- So many records were consumed, and each of them was counted once as written, dropped or errored. -/
structure Metrics.Accounts (m : Metrics) (n : ℕ) : Prop where
  consumed : m.recordsConsumed = n
  counted : m.recordsWritten + m.recordsDropped + m.recordsErrored = n

/-- At the end of a run from the initial state everything is counted. -/
theorem RunState.EndOfRun.accounts {load : ℓ → ℕ} {lane : ℓ} {lastSaved : Option χ}
    {s : RunState ℓ α χ} {n : ℕ} (hlane : load lane = 0)
    (h : s.EndOfRun load (RunState.initial lane lastSaved) n) : s.metrics.Accounts n := by
  have hconsumed : s.metrics.recordsConsumed = n := by
    have hn := h.consumed
    rw [RunState.consumedSoFar, h.committed] at hn
    simpa [RunState.consumedSoFar, RunState.initial] using hn
  refine ⟨hconsumed, ?_⟩
  have hunaccounted := h.unaccounted
  rw [RunState.unaccounted, RunState.outstanding, RunState.balance, h.committed, h.flushed,
    h.emptied, hconsumed] at hunaccounted
  simp [RunState.unaccounted, RunState.outstanding, RunState.balance, RunState.initial, hlane]
    at hunaccounted
  omega

section Results

variable [DecidableEq α] [DecidableEq χ] {c : ExecutionCoordinator α χ}

/-- A lane that returns has consumed every record of its source, and the totals of the records it has
counted as written, dropped and errored add up to their number: in every lane, for every chain, writer and
failure policy, as long as the writer reports no record both as written and as failed, no pending-write
owner is used, and Arrow batches do not go through middlewares, which drop rows uncounted. -/
theorem returned_run_accounts (harrow : c.arrowChain = true → c.chain = [])
    (huses : c.usesOwner = false) (fuel : ℕ) (input : LaneInput α χ) (h : Environment α χ)
    (lastSaved : Option χ) {w' : RunWorld input.Objects α χ}
    (hrun : (c.runLane fuel input).run h ⟨RunState.initial input.start lastSaved, []⟩ =
      (.returned (), w'))
    (hclean : ∀ o r, .called o r ∈ w'.trace → CleanAnswer o r) :
    w'.state.metrics.Accounts input.size := by
  have hassume : ∀ t, ((c.runLane fuel input).run h
      ⟨RunState.initial input.start lastSaved, []⟩).2.trace = [] ++ t → Along CleanWrites [] t := by
    intro t ht
    rw [hrun, List.nil_append] at ht
    refine along_iff.mpr fun t₁ e t₂ hsplit o r he => hclean o r ?_
    rw [ht, hsplit, he]
    exact List.mem_append_right _ List.mem_cons_self
  cases input with
  | linear records =>
    exact (returned_of_safe (c.safe_runLinearLane_books huses fuel records rfl rfl (by simp
      [RunState.Unowned, RunState.initial])) hassume hrun).accounts rfl
  | batch batches =>
    exact (returned_of_safe (c.safe_runBatchLane_books harrow fuel batches rfl rfl) hassume
      hrun).accounts rfl
  | buffered stages currentLimit records =>
    exact (returned_of_safe (c.safe_runBufferedLane_books fuel stages currentLimit records) hassume
      hrun).accounts rfl

/-- The sink declines the record 2 without an error and fails on the record 3. -/
def unevenSink : Environment ℕ ℕ
  | _, .await (.write 2) => .ok ⟨false, []⟩
  | _, .await (.write 3) => .error (.runtimeError "disk full")
  | t, o => undisturbed t o

/-- No answer of the uneven sink is both written and failed. -/
theorem cleanAnswer_unevenSink (t : RunTrace ℕ ℕ) (o : Call ℕ ℕ) : CleanAnswer o (unevenSink t o) := by
  unfold unevenSink
  split
  · exact nofun
  · trivial
  · cases o with
    | await a =>
      cases a with
      | write record => exact fun _ => rfl
      | writeBatch records =>
        intro wr hwr _
        obtain ⟨record, -, rfl⟩ := List.mem_map.mp hwr
        rfl
      | _ => trivial
    | _ => trivial

/-- Records without a checkpoint. -/
def plainRecords : List (SourceRecord ℕ ℕ) := [⟨1, none, []⟩, ⟨2, none, []⟩, ⟨3, none, []⟩]

/-- One record is written, the next one dropped, and the failure of the last one captured. -/
theorem returned_run_accounts_uneven :
    let w := (((ExecutionCoordinator.standard (DeliveryEngine.standard true) []).runLane 9
      (.linear plainRecords)).run unevenSink ⟨RunState.initial [] none, []⟩).2
    (w.state.metrics.recordsWritten, w.state.metrics.recordsDropped, w.state.metrics.recordsErrored) =
        (1, 1, 1) ∧ w.state.metrics.Accounts 3 := by
  intro w
  obtain ⟨t, ht, hanswered⟩ :=
    ((ExecutionCoordinator.standard (DeliveryEngine.standard true) []).runLane 9
      (.linear plainRecords)).answered_run unevenSink ⟨RunState.initial [] none, []⟩
  have hrun : ((ExecutionCoordinator.standard (DeliveryEngine.standard true) []).runLane 9
      (.linear plainRecords)).run unevenSink ⟨RunState.initial [] none, []⟩ = (.returned (), w) := rfl
  refine ⟨rfl, returned_run_accounts (c := .standard (DeliveryEngine.standard true) []) (fun _ => rfl)
    rfl 9 (.linear plainRecords) unevenSink none hrun fun o r hmem => ?_⟩
  rw [show w.trace = t from ht] at hmem
  obtain ⟨t₁, t₂, rfl⟩ := List.append_of_mem hmem
  obtain rfl := along_iff.mp hanswered t₁ _ t₂ rfl o r rfl
  exact cleanAnswer_unevenSink _ o

end Results

end AgoraEtl
