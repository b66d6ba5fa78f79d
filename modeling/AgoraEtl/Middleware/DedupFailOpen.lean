import AgoraEtl.Delivery.PartialFailure
import AgoraEtl.Middleware.FuzzyDedup

/-!
# Deduplication when the store fails

The store is asked in `process`, where `_handle_store_failure` stands behind the call, and written in the
success hooks, where nothing does.  Here records are processed one after the other, with a strategy or
without, and the delivery engine runs the hooks of the records that it has handled, in batches of any
size and order.  A hook that raises ends the loop over the hooks and with it the run.
-/

namespace AgoraEtl.DedupFailOpen

open Dedup (DedupMiddleware DedupStoreFailurePolicy Result)
open FuzzyDedup (FuzzyMiddleware)
open Effect Program

variable {κ : Type} [DecidableEq κ]

/-- `DedupMiddleware`, without a strategy or with one. -/
inductive Stage (κ : Type) where
  | exact (m : DedupMiddleware κ)
  | fuzzy (isDuplicate : κ → κ → Bool) (m : FuzzyMiddleware κ)

namespace Stage

def storeFailurePolicy : Stage κ → DedupStoreFailurePolicy
  | exact m => m.storeFailurePolicy
  | fuzzy _ m => m.storeFailurePolicy

/-- `_pending_keys`. -/
def pendingKeys : Stage κ → Finset κ
  | exact m => m.pendingKeys
  | fuzzy _ m => m.pendingKeys

/-- `_pending_fuzzy_keys`. -/
def pendingFuzzyKeys : Stage κ → List κ
  | exact _ => []
  | fuzzy _ m => m.pendingFuzzyKeys

/-- `process`; the answer of the store is `none` if it raises. -/
def process : Stage κ → κ → Option Bool → Stage κ × Result
  | exact m, key, found =>
    if m.asks key then (exact (m.afterExists key found).1, (m.afterExists key found).2)
    else (exact m, .dropped)
  | fuzzy isDuplicate m, key, found =>
    (fuzzy isDuplicate (m.process isDuplicate key found).1, (m.process isDuplicate key found).2)

/-- `_commit` from the answer of `store.add` on: whether the store has added the key. -/
def commit : Stage κ → κ → Bool → Stage κ
  | exact m, key, _ => exact (m.release key)
  | fuzzy isDuplicate m, key, added => fuzzy isDuplicate (m.commit key added)

/-- `_discard`. -/
def discard : Stage κ → κ → Stage κ
  | exact m, key => exact (m.release key)
  | fuzzy isDuplicate m, key => fuzzy isDuplicate (m.release key)

/-- The reservations are those of records with these keys. -/
def HeldBy (s : Stage κ) (keys : List κ) : Prop :=
  (∀ key ∈ s.pendingKeys, key ∈ keys) ∧ ∀ key, s.pendingFuzzyKeys.count key ≤ keys.count key

end Stage

/-- A record that was let through with hooks: the identity of its hooks, and its key. -/
abbrev Hooked (κ : Type) : Type := Hook × κ

/-- The middleware with its store, the records whose hooks have yet to run, and whether an exception has
ended the run. -/
structure World (κ : Type) where
  stage : Stage κ
  store : Finset κ
  nextHook : Hook := 0
  pending : List (Hooked κ) := []
  stopped : Bool := false

/-- A call of `process`, whose lookup may raise; the hooks of records that are handled, in the order in
which they run; or the discard hook of a record. -/
inductive Event (κ : Type) where
  | process (key : κ) (lookupFails : Bool)
  | commit (batch : List (Hooked κ))
  | discard (record : Hooked κ)

namespace World

variable (addFails : Hook → Bool)

/-- What becomes of a call of `process`. -/
def processed (w : World κ) (key : κ) (lookupFails : Bool) : Stage κ × Result :=
  w.stage.process key (if lookupFails then none else some (decide (key ∈ w.store)))

/-- The loop over the success hooks.  The `finally` of a hook whose `add` raises still runs; the hooks
after it do not. -/
def runHooks (w : World κ) : List (Hooked κ) → World κ
  | [] => w
  | record :: records =>
    if addFails record.1 then { w with stage := w.stage.commit record.2 false, stopped := true }
    else
      runHooks { w with
        stage := w.stage.commit record.2 true
        store := insert record.2 w.store } records

/-- One step; nothing if the event is not possible. -/
def next (w : World κ) : Event κ → Option (World κ)
  | .process key lookupFails =>
    if w.stopped then none
    else
      let (stage, result) := w.processed key lookupFails
      if result = .reserved then
        some { w with
          stage := stage
          nextHook := w.nextHook + 1
          pending := w.pending ++ [(w.nextHook, key)] }
      else some { w with stage := stage }
  | .commit batch =>
    if w.stopped = false ∧ batch.Subperm w.pending then
      some ({ w with pending := w.pending.diff batch }.runHooks addFails batch)
    else none
  | .discard record =>
    if w.stopped = false ∧ record ∈ w.pending then
      some { w with stage := w.stage.discard record.2, pending := w.pending.erase record }
    else none

/-- The step that an event is. -/
def Step (w : World κ) (event : Event κ) (w' : World κ) : Prop := w.next addFails event = some w'

/-- A failed lookup lets the record through as it is: either the store was not asked, so that its answer
does not matter, or the middleware is as before and the record has no hooks. -/
def LookupFailsOpen (w : World κ) : Event κ → Prop
  | .process key lookupFails =>
    (w.processed key lookupFails).2 ≠ .raised ∧
      ((∀ found, w.stage.process key none = w.stage.process key (some found)) ∨
        w.stage.process key none = (w.stage, .unreserved))
  | _ => True

/-- Every reservation belongs to a record whose hooks have yet to run. -/
def Released (w : World κ) : Prop := w.stage.HeldBy (w.pending.map Prod.snd)

/-- What a failing store is to leave untouched in a step: the record passes, the run goes on, and
reservations are released. -/
def FailsOpen (w : World κ) (event : Event κ) (w' : World κ) : Prop :=
  w.LookupFailsOpen event ∧ w'.stopped = false ∧ w'.Released

/-- No hook that runs in the step fails to add its key. -/
def AddsSucceed : Event κ → Prop
  | .commit batch => ∀ record ∈ batch, addFails record.1 = false
  | _ => True

end World

/-! ### Reservations -/

namespace Stage

variable {s : Stage κ} {key : κ}

/-- A call of `process` leaves the middleware as it is and raises only if failures are not let through,
or it reserves the key. -/
theorem process_cases (s : Stage κ) (key : κ) (found : Option Bool) :
    (∃ result, s.process key found = (s, result) ∧ result ≠ .reserved ∧
      (s.storeFailurePolicy = .failOpen → result ≠ .raised)) ∨
    ∃ s', s.process key found = (s', .reserved) ∧ s'.storeFailurePolicy = s.storeFailurePolicy ∧
      s'.pendingKeys = insert key s.pendingKeys ∧
        (s'.pendingFuzzyKeys = s.pendingFuzzyKeys ∨
          s'.pendingFuzzyKeys = s.pendingFuzzyKeys ++ [key]) := by
  cases s with
  | exact m =>
    by_cases hasks : m.asks key = true
    · simp only [process, if_pos hasks]
      cases found with
      | some known =>
        cases known with
        | true => exact .inl ⟨.dropped, rfl, by decide, fun _ => by decide⟩
        | false => exact .inr ⟨_, rfl, rfl, rfl, .inl rfl⟩
      | none =>
        refine .inl ⟨m.handleStoreFailure, rfl, ?_, fun hopen => ?_⟩
        · unfold DedupMiddleware.handleStoreFailure
          cases m.storeFailurePolicy <;> decide
        · have hpolicy : m.storeFailurePolicy = .failOpen := hopen
          rw [DedupMiddleware.handleStoreFailure, hpolicy]
          decide
    · simp only [process, if_neg hasks]
      exact .inl ⟨.dropped, rfl, by decide, fun _ => by decide⟩
  | fuzzy isDuplicate m =>
    simp only [process, FuzzyMiddleware.process]
    by_cases hcap : m.maxFuzzyKeys ≤ m.seenKeys.length
    · by_cases hpending : key ∈ m.pendingKeys
      · simp only [if_pos hcap, if_pos hpending]
        exact .inl ⟨.dropped, rfl, by decide, fun _ => by decide⟩
      · simp only [if_pos hcap, if_neg hpending]
        cases found with
        | some known =>
          cases known with
          | true => exact .inl ⟨.dropped, rfl, by decide, fun _ => by decide⟩
          | false => exact .inr ⟨_, rfl, rfl, rfl, .inl rfl⟩
        | none =>
          refine .inl ⟨m.handleStoreFailure, rfl, ?_, fun hopen => ?_⟩
          · unfold FuzzyMiddleware.handleStoreFailure
            cases m.storeFailurePolicy <;> decide
          · have hpolicy : m.storeFailurePolicy = .failOpen := hopen
            rw [FuzzyMiddleware.handleStoreFailure, hpolicy]
            decide
    · simp only [if_neg hcap]
      split
      next => exact .inl ⟨.dropped, rfl, by decide, fun _ => by decide⟩
      next => exact .inr ⟨_, rfl, rfl, rfl, .inr rfl⟩

/-- A failed lookup that lets records through changes nothing, or the store was not asked. -/
theorem process_none (hopen : s.storeFailurePolicy = .failOpen) (key : κ) :
    (∀ found, s.process key none = s.process key (some found)) ∨
      s.process key none = (s, .unreserved) := by
  cases s with
  | exact m =>
    have hpolicy : m.storeFailurePolicy = .failOpen := hopen
    by_cases hasks : m.asks key = true
    · refine .inr ?_
      simp only [process, if_pos hasks, DedupMiddleware.afterExists,
        DedupMiddleware.handleStoreFailure, hpolicy]
    · refine .inl fun found => ?_
      simp only [process, if_neg hasks]
  | fuzzy isDuplicate m =>
    have hpolicy : m.storeFailurePolicy = .failOpen := hopen
    simp only [process, FuzzyMiddleware.process]
    by_cases hcap : m.maxFuzzyKeys ≤ m.seenKeys.length
    · by_cases hpending : key ∈ m.pendingKeys
      · exact .inl fun found => by simp only [if_pos hcap, if_pos hpending]
      · refine .inr ?_
        simp only [if_pos hcap, if_neg hpending, FuzzyMiddleware.handleStoreFailure, hpolicy]
    · exact .inl fun found => by simp only [if_neg hcap]

/-- Both hooks release what their record holds. -/
theorem HeldBy.release {keys : List κ} (h : s.HeldBy (key :: keys)) {s' : Stage κ}
    (hkeys : s'.pendingKeys = s.pendingKeys.erase key)
    (hfuzzy : s'.pendingFuzzyKeys = s.pendingFuzzyKeys.erase key) : s'.HeldBy keys := by
  constructor
  · intro k hk
    rw [hkeys, Finset.mem_erase] at hk
    exact (List.mem_cons.mp (h.1 k hk.2)).resolve_left hk.1
  · intro k
    have hcount := h.2 k
    rw [List.count_cons] at hcount
    rw [hfuzzy, List.count_erase]
    omega

theorem commit_release (s : Stage κ) (key : κ) (added : Bool) :
    (s.commit key added).storeFailurePolicy = s.storeFailurePolicy ∧
      (s.commit key added).pendingKeys = s.pendingKeys.erase key ∧
        (s.commit key added).pendingFuzzyKeys = s.pendingFuzzyKeys.erase key := by
  cases s with
  | exact m => exact ⟨rfl, rfl, rfl⟩
  | fuzzy isDuplicate m =>
    simp only [commit, FuzzyMiddleware.commit]
    split <;> exact ⟨rfl, rfl, rfl⟩

theorem discard_release (s : Stage κ) (key : κ) :
    (s.discard key).storeFailurePolicy = s.storeFailurePolicy ∧
      (s.discard key).pendingKeys = s.pendingKeys.erase key ∧
        (s.discard key).pendingFuzzyKeys = s.pendingFuzzyKeys.erase key := by
  cases s <;> exact ⟨rfl, rfl, rfl⟩

end Stage

/-! ### Steps and runs -/

namespace World

variable {addFails : Hook → Bool} {w w' : World κ}

/-- The hooks of a batch whose keys are all added release what its records hold. -/
theorem runHooks_of_forall {batch : List (Hooked κ)} {keys : List κ}
    (hadds : ∀ record ∈ batch, addFails record.1 = false)
    (hheld : w.stage.HeldBy (batch.map Prod.snd ++ keys)) :
    (w.runHooks addFails batch).stopped = w.stopped ∧
      (w.runHooks addFails batch).stage.storeFailurePolicy = w.stage.storeFailurePolicy ∧
        (w.runHooks addFails batch).pending = w.pending ∧
          (w.runHooks addFails batch).stage.HeldBy keys := by
  induction batch generalizing w with
  | nil => exact ⟨rfl, rfl, rfl, hheld⟩
  | cons record batch ih =>
    obtain ⟨hadd, hlater⟩ := List.forall_mem_cons.mp hadds
    obtain ⟨hpolicy, hkeys, hfuzzy⟩ := w.stage.commit_release record.2 true
    have hnext := hheld.release hkeys hfuzzy
    have hrest := ih (w := { w with
      stage := w.stage.commit record.2 true
      store := insert record.2 w.store }) hlater hnext
    rw [runHooks, if_neg (by rw [hadd]; decide)]
    exact ⟨hrest.1, hrest.2.1.trans hpolicy, hrest.2.2⟩

/-- A hook whose key is not added stops the run. -/
theorem runHooks_of_fails {batch : List (Hooked κ)}
    (h : ∃ record ∈ batch, addFails record.1 = true) :
    (w.runHooks addFails batch).stopped = true := by
  induction batch generalizing w with
  | nil =>
    obtain ⟨record, hmem, -⟩ := h
    exact absurd hmem List.not_mem_nil
  | cons first batch ih =>
    rw [runHooks]
    split
    next => rfl
    next hadd =>
      obtain ⟨record, hmem, hfails⟩ := h
      rcases List.mem_cons.mp hmem with rfl | hlater
      · exact absurd hfails hadd
      · exact ih ⟨record, hlater, hfails⟩

/-- What holds as long as the run goes on. -/
structure Inv (w : World κ) : Prop where
  failOpen : w.stage.storeFailurePolicy = .failOpen
  going : w.stopped = false
  released : w.Released

/-- A lookup that fails lets the record through. -/
theorem Inv.lookupFailsOpen (h : w.Inv) (event : Event κ) : w.LookupFailsOpen event := by
  cases event with
  | process key lookupFails =>
    refine ⟨?_, Stage.process_none h.failOpen key⟩
    unfold processed
    rcases w.stage.process_cases key (if lookupFails then none else some (decide (key ∈ w.store))) with
      ⟨result, hprocess, -, hraised⟩ | ⟨s', hprocess, -⟩
    · rw [hprocess]
      exact hraised h.failOpen
    · rw [hprocess]
      exact nofun
  | commit batch => trivial
  | discard record => trivial

/-- A step in which all keys are added keeps the run going and releases reservations. -/
theorem Inv.next {event : Event κ} (h : w.Inv) (hstep : Step addFails w event w')
    (hadds : AddsSucceed addFails event) : w'.Inv := by
  unfold Step at hstep
  cases event with
  | process key lookupFails =>
    dsimp only [World.next] at hstep
    rw [if_neg (Bool.eq_false_iff.mp h.going)] at hstep
    unfold processed at hstep
    rcases w.stage.process_cases key (if lookupFails then none else some (decide (key ∈ w.store))) with
      ⟨result, hprocess, hresult, -⟩ | ⟨s', hprocess, hpolicy, hkeys, hfuzzy⟩
    · rw [hprocess] at hstep
      dsimp only at hstep
      rw [if_neg hresult] at hstep
      obtain rfl := Option.some.inj hstep
      exact h
    · rw [hprocess] at hstep
      dsimp only at hstep
      rw [if_pos rfl] at hstep
      obtain rfl := Option.some.inj hstep
      refine ⟨hpolicy.trans h.failOpen, h.going, fun k hk => ?_, fun k => ?_⟩
      · rw [hkeys, Finset.mem_insert] at hk
        rw [List.map_append, List.mem_append]
        rcases hk with rfl | hk
        · exact .inr List.mem_cons_self
        · exact .inl (h.released.1 k hk)
      · have hcount := h.released.2 k
        rw [List.map_append, List.count_append]
        rcases hfuzzy with hsame | hmore
        · rw [hsame]
          exact hcount.trans (Nat.le_add_right _ _)
        · rw [hmore, List.count_append]
          exact Nat.add_le_add_right hcount _
  | commit batch =>
    obtain ⟨⟨-, hbatch⟩, hdone⟩ := Option.ite_none_right_eq_some.mp hstep
    obtain rfl := Option.some.inj hdone
    have hperm : (batch ++ w.pending.diff batch).Perm w.pending :=
      List.subperm_append_diff_self_of_count_le fun record hmem => hbatch.count_le record
    have hheld : w.stage.HeldBy (batch.map Prod.snd ++ (w.pending.diff batch).map Prod.snd) := by
      have hkeys := hperm.map Prod.snd
      rw [List.map_append] at hkeys
      exact ⟨fun k hk => hkeys.mem_iff.mpr (h.released.1 k hk),
        fun k => (h.released.2 k).trans_eq (hkeys.count_eq k).symm⟩
    obtain ⟨hgoing, hpolicy, hpending, hreleased⟩ :=
      runHooks_of_forall (w := { w with pending := w.pending.diff batch }) hadds hheld
    refine ⟨hpolicy.trans h.failOpen, hgoing.trans h.going, ?_⟩
    unfold Released
    rw [hpending]
    exact hreleased
  | discard record =>
    obtain ⟨⟨-, hmem⟩, hdone⟩ := Option.ite_none_right_eq_some.mp hstep
    obtain rfl := Option.some.inj hdone
    obtain ⟨hpolicy, hkeys, hfuzzy⟩ := w.stage.discard_release record.2
    have hperm := (List.perm_cons_erase hmem).map Prod.snd
    have hheld : w.stage.HeldBy (record.2 :: (w.pending.erase record).map Prod.snd) :=
      ⟨fun k hk => hperm.mem_iff.mp (h.released.1 k hk),
        fun k => (h.released.2 k).trans_eq (hperm.count_eq k)⟩
    exact ⟨hpolicy.trans h.failOpen, h.going, hheld.release hkeys hfuzzy⟩

/-- A step leaves a failing store without effect exactly where the hooks that run add their keys. -/
theorem Inv.failsOpen_iff {event : Event κ} (h : w.Inv) (hstep : Step addFails w event w') :
    w.FailsOpen event w' ↔ AddsSucceed addFails event := by
  constructor
  · rintro ⟨-, hgoing, -⟩
    cases event with
    | process key lookupFails => trivial
    | discard record => trivial
    | commit batch =>
      obtain ⟨-, hdone⟩ := Option.ite_none_right_eq_some.mp hstep
      obtain rfl := Option.some.inj hdone
      intro record hmem
      by_contra hfails
      rw [runHooks_of_fails ⟨record, hmem, by simpa using hfails⟩] at hgoing
      exact nomatch hgoing
  · intro hadds
    have hnext := h.next hstep hadds
    exact ⟨h.lookupFailsOpen event, hnext.going, hnext.released⟩

/-- Before the first record. -/
def init (strategy : Option (κ → κ → Bool)) (maxFuzzyKeys : ℕ) (store : Finset κ) : World κ where
  stage := match strategy with
    | none => .exact { storeFailurePolicy := .failOpen }
    | some isDuplicate =>
      .fuzzy isDuplicate { maxFuzzyKeys := maxFuzzyKeys, storeFailurePolicy := .failOpen }
  store := store

theorem inv_init (strategy : Option (κ → κ → Bool)) (maxFuzzyKeys : ℕ) (store : Finset κ) :
    (init strategy maxFuzzyKeys store).Inv := by
  cases strategy with
  | none => exact ⟨rfl, rfl, fun k hk => absurd hk (Finset.notMem_empty k), fun k => Nat.zero_le _⟩
  | some isDuplicate =>
    exact ⟨rfl, rfl, fun k hk => absurd hk (Finset.notMem_empty k), fun k => Nat.zero_le _⟩

/-- Over the runs of a middleware that lets failures through: every step leaves the failures of the
store without effect exactly where all hooks that run add their keys. -/
theorem runs_failOpen_iff (addFails : Hook → Bool) (strategy : Option (κ → κ → Bool))
    (maxFuzzyKeys : ℕ) (store : Finset κ) (events : List (Event κ)) (w : World κ) :
    Runs (fun w event w' => Step addFails w event w' ∧ w.FailsOpen event w')
        (init strategy maxFuzzyKeys store) events w ↔
      Runs (fun w event w' => Step addFails w event w' ∧ AddsSucceed addFails event)
        (init strategy maxFuzzyKeys store) events w :=
  Runs.iff_of_invariant (inv_init strategy maxFuzzyKeys store)
    (fun _ _ _ hinv hstep => hinv.failsOpen_iff hstep)
    fun _ _ _ hinv hstep hadds => hinv.next hstep hadds

/-- The loop of the delivery engine over the hooks of a batch ends as `runHooks` does, if the hooks raise
where their keys are not added. -/
theorem runHooks_engine {ℓ α χ : Type} {h : Environment α χ}
    (hraises : ∀ t hook, (h t (.await (.successHook hook))).isOk = !addFails hook)
    (batch : List (Hooked κ)) (v : RunWorld ℓ α χ) (hgoing : w.stopped = false) :
    (w.runHooks addFails batch).stopped = false ↔
      ((AgoraEtl.runHooks (batch.map Prod.fst) : Delivery ℓ α χ Unit).run h v).1 = .returned () := by
  have hloop : ∀ (batch : List (Hooked κ)) (w : World κ) (t : RunTrace α χ), w.stopped = false →
      ((w.runHooks addFails batch).stopped = false ↔ hooksRaise h t (batch.map Prod.fst) = none) := by
    intro batch
    induction batch with
    | nil => exact fun w t hgoing => ⟨fun _ => rfl, fun _ => hgoing⟩
    | cons record batch ih =>
      intro w t hgoing
      have hanswer := hraises t record.1
      rw [World.runHooks, List.map_cons, hooksRaise]
      cases hcall : h t (.await (.successHook record.1)) with
      | error exc =>
        rw [hcall] at hanswer
        have hfails : addFails record.1 = true := by simpa [Except.isOk, Except.toBool] using hanswer
        rw [if_pos hfails]
        simp
      | ok value =>
        rw [hcall] at hanswer
        have hadds : ¬ addFails record.1 = true := by
          simpa [Except.isOk, Except.toBool] using hanswer
        rw [if_neg hadds]
        exact ih _ _ hgoing
  obtain ⟨v', hrun, -⟩ := run_runHooks h (batch.map Prod.fst) v
  rw [hrun, hloop batch w v.trace hgoing]
  cases hooksRaise h v.trace (batch.map Prod.fst) <;> simp

/-- A run without a strategy in which records with the given keys were let through. -/
def reservedWorld (keys : List ℕ) : World ℕ where
  stage := .exact {
    storeFailurePolicy := .failOpen
    pendingKeys := keys.foldl (fun reserved key => insert key reserved) ∅ }
  store := ∅
  nextHook := keys.length
  pending := keys.zipIdx.map Prod.swap

/-- Two records are let through and handled in one batch, and the store refuses the first key: the run
stops, and the second record keeps its reservation although its hooks will not run. -/
theorem not_failsOpen_secondRecord :
    Runs (Step fun hook => hook == 0) (init none 0 ∅) [.process 1 false, .process 2 false]
        (reservedWorld [1, 2]) ∧
      ∃ w', Step (fun hook => hook == 0) (reservedWorld [1, 2]) (.commit [(0, 1), (1, 2)]) w' ∧
        ¬ (reservedWorld [1, 2]).FailsOpen (.commit [(0, 1), (1, 2)]) w' ∧ ¬ w'.Released := by
  have hfirst : Step (fun hook => hook == 0) (init none 0 ∅) (.process 1 false)
      (reservedWorld [1]) := rfl
  have hsecond : Step (fun hook => hook == 0) (reservedWorld [1]) (.process 2 false)
      (reservedWorld [1, 2]) := rfl
  have hcommit : Step (fun hook => hook == 0) (reservedWorld [1, 2]) (.commit [(0, 1), (1, 2)])
      ({ reservedWorld [1, 2] with pending := [] }.runHooks (fun hook => hook == 0)
        [(0, 1), (1, 2)]) := by
    unfold Step World.next
    exact if_pos ⟨rfl, .refl _⟩
  refine ⟨.snoc (.snoc .start hfirst) hsecond, _, hcommit, ?_, ?_⟩
  · rintro ⟨-, hgoing, -⟩
    exact nomatch hgoing
  · intro hreleased
    exact absurd (hreleased.1 2 (by decide)) (by decide)

end World

end AgoraEtl.DedupFailOpen
