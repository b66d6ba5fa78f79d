import AgoraEtl.Middleware.Dedup
import Mathlib.Data.Finset.Card
import Mathlib.Data.List.Perm.Basic

/-!
# Fuzzy deduplication

With a strategy, `process` compares the key with all remembered and pending keys.  Once as many keys are
remembered as the cap allows, it falls back to the store: the key is looked up among the reservations
and in the store, and no longer compared.

`process_safe` says what holds of a record that is let through on either side of the cap.
-/

namespace AgoraEtl.FuzzyDedup

open Dedup (DedupStoreFailurePolicy Result)

variable {κ : Type} [DecidableEq κ]

/-! ### The middleware -/

/-- `DedupMiddleware` with a strategy. -/
structure FuzzyMiddleware (κ : Type) where
  maxFuzzyKeys : ℕ
  storeFailurePolicy : DedupStoreFailurePolicy := .failClosed
  seenKeys : List κ := []
  pendingKeys : Finset κ := ∅
  pendingFuzzyKeys : List κ := []
  deriving DecidableEq

namespace FuzzyMiddleware

/-- `_register_commit_marker`, without the hooks. -/
def registerCommitMarker (m : FuzzyMiddleware κ) (key : κ) : FuzzyMiddleware κ :=
  { m with pendingKeys := insert key m.pendingKeys }

/-- `_handle_store_failure`. -/
def handleStoreFailure (m : FuzzyMiddleware κ) : Result :=
  match m.storeFailurePolicy with
  | .failOpen => .unreserved
  | .failClosed => .raised

/-- `process`; the answer of the store is `none` if it raises. -/
def process (isDuplicate : κ → κ → Bool) (m : FuzzyMiddleware κ) (key : κ) (found : Option Bool) :
    FuzzyMiddleware κ × Result :=
  if m.maxFuzzyKeys ≤ m.seenKeys.length then
    if key ∈ m.pendingKeys then (m, .dropped)
    else match found with
      | none => (m, m.handleStoreFailure)
      | some true => (m, .dropped)
      | some false => (m.registerCommitMarker key, .reserved)
  else if (m.seenKeys ++ m.pendingFuzzyKeys).any fun seen => isDuplicate key seen then (m, .dropped)
  else
    ({ m with pendingFuzzyKeys := m.pendingFuzzyKeys ++ [key] }.registerCommitMarker key, .reserved)

/-- What both hooks do at their end. -/
def release (m : FuzzyMiddleware κ) (key : κ) : FuzzyMiddleware κ :=
  { m with
    pendingKeys := m.pendingKeys.erase key
    pendingFuzzyKeys := m.pendingFuzzyKeys.erase key }

/-- The hook that commits a record; whether the store has added the key. -/
def commit (m : FuzzyMiddleware κ) (key : κ) (added : Bool) : FuzzyMiddleware κ :=
  if added ∧ key ∉ m.seenKeys then { m with seenKeys := m.seenKeys ++ [key] }.release key
  else m.release key

end FuzzyMiddleware

/-! ### Records under way -/

/-- The middleware with its store, the keys of the records whose hooks have not run yet, and the keys of
the committed records. -/
structure World (κ : Type) where
  middleware : FuzzyMiddleware κ
  store : Finset κ
  openKeys : List κ
  committed : List κ
  deriving DecidableEq

/-- A call of `process`, or the run of one of the hooks of a record; the store may raise. -/
inductive Event (κ : Type) where
  | process (key : κ) (fails : Bool)
  | commit (key : κ) (fails : Bool)
  | discard (key : κ)

namespace World

def init (maxFuzzyKeys : ℕ) (policy : DedupStoreFailurePolicy) (store : Finset κ) : World κ where
  middleware := { maxFuzzyKeys := maxFuzzyKeys, storeFailurePolicy := policy }
  store := store
  openKeys := []
  committed := []

variable (isDuplicate : κ → κ → Bool)

/-- What becomes of a call of `process`. -/
def processed (w : World κ) (key : κ) (fails : Bool) : FuzzyMiddleware κ × Result :=
  w.middleware.process isDuplicate key (if fails then none else some (decide (key ∈ w.store)))

/-- The record is let through, with its hooks or without. -/
def LetsThrough (w : World κ) (key : κ) (fails : Bool) : Prop :=
  (w.processed isDuplicate key fails).2 = .reserved ∨
    (w.processed isDuplicate key fails).2 = .unreserved

def next (w : World κ) : Event κ → Option (World κ)
  | .process key fails =>
    let outcome := w.processed isDuplicate key fails
    some { w with
      middleware := outcome.1
      openKeys := if outcome.2 = .reserved then w.openKeys ++ [key] else w.openKeys }
  | .commit key fails =>
    if key ∈ w.openKeys then
      some {
        middleware := w.middleware.commit key (!fails)
        store := if fails then w.store else insert key w.store
        openKeys := w.openKeys.erase key
        committed := if fails then w.committed else w.committed ++ [key] }
    else none
  | .discard key =>
    if key ∈ w.openKeys then
      some { w with middleware := w.middleware.release key, openKeys := w.openKeys.erase key }
    else none

def Step (w : World κ) (event : Event κ) (w' : World κ) : Prop :=
  w.next isDuplicate event = some w'

instance (w : World κ) (event : Event κ) (w' : World κ) : Decidable (Step isDuplicate w event w') :=
  inferInstanceAs (Decidable (w.next isDuplicate event = some w'))

/-! ### What is kept -/

/-- A record that is let through below the cap is like no pending and no committed key.  At the cap its
key is not in the store, unless the store fails and failures let records through, and it is not pending
if every key is like itself. -/
def Safe (w : World κ) : Event κ → Prop
  | .process key fails => w.LetsThrough isDuplicate key fails →
    if w.middleware.seenKeys.length < w.middleware.maxFuzzyKeys then
      ∀ k ∈ w.openKeys ++ w.committed, isDuplicate key k = false
    else
      (fails = true ∧ w.middleware.storeFailurePolicy = .failOpen ∨ key ∉ w.store) ∧
        ((∀ k, isDuplicate k k = true) → key ∉ w.openKeys)
  | _ => True

/-- The remembered keys are the committed ones, each once.  The reservations are the open keys: as a list
below the cap, and as a set if every key is like itself. -/
structure Inv (w : World κ) : Prop where
  remembered : ∀ k, k ∈ w.middleware.seenKeys ↔ k ∈ w.committed
  nodup : w.middleware.seenKeys.Nodup
  fuzzy : w.middleware.seenKeys.length < w.middleware.maxFuzzyKeys →
    w.middleware.pendingFuzzyKeys.Perm w.openKeys
  reserved : (∀ k, isDuplicate k k = true) →
    w.openKeys.Nodup ∧ ∀ k, k ∈ w.middleware.pendingKeys ↔ k ∈ w.openKeys

variable {isDuplicate} {w w' : World κ}

omit [DecidableEq κ] in
theorem inv_init (maxFuzzyKeys : ℕ) (policy : DedupStoreFailurePolicy) (store : Finset κ) :
    (init maxFuzzyKeys policy store).Inv isDuplicate :=
  ⟨fun _ => Iff.rfl, List.nodup_nil, fun _ => .refl _, fun _ => ⟨List.nodup_nil, fun k => by simp [init]⟩⟩

/-- What a call of `process` comes to. -/
theorem processed_cases (isDuplicate : κ → κ → Bool) (w : World κ) (key : κ) (fails : Bool) :
    (∃ r, r ≠ .reserved ∧ w.processed isDuplicate key fails = (w.middleware, r) ∧
      (r = .unreserved → w.middleware.maxFuzzyKeys ≤ w.middleware.seenKeys.length ∧
        key ∉ w.middleware.pendingKeys ∧ fails = true ∧
        w.middleware.storeFailurePolicy = .failOpen)) ∨
    (w.middleware.maxFuzzyKeys ≤ w.middleware.seenKeys.length ∧ key ∉ w.middleware.pendingKeys ∧
      key ∉ w.store ∧ w.processed isDuplicate key fails =
        (w.middleware.registerCommitMarker key, .reserved)) ∨
    (w.middleware.seenKeys.length < w.middleware.maxFuzzyKeys ∧
      (∀ k ∈ w.middleware.seenKeys ++ w.middleware.pendingFuzzyKeys, isDuplicate key k = false) ∧
      w.processed isDuplicate key fails = ({ w.middleware with
        pendingFuzzyKeys := w.middleware.pendingFuzzyKeys ++ [key] }.registerCommitMarker key,
          .reserved)) := by
  unfold processed FuzzyMiddleware.process
  by_cases hcap : w.middleware.maxFuzzyKeys ≤ w.middleware.seenKeys.length
  · rw [if_pos hcap]
    by_cases hpending : key ∈ w.middleware.pendingKeys
    · rw [if_pos hpending]
      exact .inl ⟨.dropped, nofun, rfl, nofun⟩
    · rw [if_neg hpending]
      cases fails with
      | true =>
        refine .inl ⟨_, ?_, rfl, fun hopen => ⟨hcap, hpending, rfl, ?_⟩⟩
        · unfold FuzzyMiddleware.handleStoreFailure
          cases w.middleware.storeFailurePolicy <;> nofun
        · unfold FuzzyMiddleware.handleStoreFailure at hopen
          cases hpolicy : w.middleware.storeFailurePolicy with
          | failOpen => rfl
          | failClosed =>
            rw [hpolicy] at hopen
            cases hopen
      | false =>
        by_cases hstore : key ∈ w.store
        · refine .inl ⟨.dropped, nofun, ?_, nofun⟩
          rw [decide_eq_true hstore]
          rfl
        · refine .inr (.inl ⟨hcap, hpending, hstore, ?_⟩)
          rw [decide_eq_false hstore]
          rfl
  · rw [if_neg hcap]
    by_cases hlike : ((w.middleware.seenKeys ++ w.middleware.pendingFuzzyKeys).any
      fun seen => isDuplicate key seen) = true
    · rw [if_pos hlike]
      exact .inl ⟨.dropped, nofun, rfl, nofun⟩
    · rw [if_neg hlike]
      refine .inr (.inr ⟨Nat.lt_of_not_le hcap, fun k hk => ?_, rfl⟩)
      rw [List.any_eq_true] at hlike
      exact Bool.eq_false_iff.mpr fun hsame => hlike ⟨k, hk, hsame⟩

/-- A record that is let through is as it should be. -/
theorem Inv.safe (h : w.Inv isDuplicate) (event : Event κ) : w.Safe isDuplicate event := by
  cases event with
  | commit key fails => trivial
  | discard key => trivial
  | process key fails =>
    intro hthrough
    unfold LetsThrough at hthrough
    obtain ⟨r, hr, hrun, hunreserved⟩ | ⟨hcap, hpending, hstore, -⟩ | ⟨hcap, hunlike, -⟩ :=
      w.processed_cases isDuplicate key fails
    · rw [hrun] at hthrough
      obtain ⟨hcap, hpending, hfails, hpolicy⟩ := hunreserved (hthrough.resolve_left hr)
      rw [if_neg (Nat.not_lt_of_le hcap)]
      exact ⟨.inl ⟨hfails, hpolicy⟩, fun hself hopen => hpending (((h.reserved hself).2 key).mpr hopen)⟩
    · rw [if_neg (Nat.not_lt_of_le hcap)]
      exact ⟨.inr hstore, fun hself hopen => hpending (((h.reserved hself).2 key).mpr hopen)⟩
    · rw [if_pos hcap]
      intro k hk
      refine hunlike k (List.mem_append.mpr ?_)
      rcases List.mem_append.mp hk with hopen | hcommitted
      · exact .inr ((h.fuzzy hcap).mem_iff.mpr hopen)
      · exact .inl ((h.remembered k).mpr hcommitted)

/-- Reserving a key that is not open. -/
theorem Inv.reserve (h : w.Inv isDuplicate) {m : FuzzyMiddleware κ} {key : κ}
    (hcap : m.maxFuzzyKeys = w.middleware.maxFuzzyKeys) (hseen : m.seenKeys = w.middleware.seenKeys)
    (hfuzzy : m.seenKeys.length < m.maxFuzzyKeys →
      m.pendingFuzzyKeys = w.middleware.pendingFuzzyKeys ++ [key])
    (hkeys : m.pendingKeys = insert key w.middleware.pendingKeys)
    (hfree : (∀ k, isDuplicate k k = true) → key ∉ w.openKeys) :
    ({ w with middleware := m, openKeys := w.openKeys ++ [key] } : World κ).Inv isDuplicate where
  remembered := by
    rw [hseen]
    exact h.remembered
  nodup := by
    rw [hseen]
    exact h.nodup
  fuzzy := by
    intro hlt
    have hperm := h.fuzzy (by rwa [hseen, hcap] at hlt)
    rw [hfuzzy hlt]
    exact hperm.append_right [key]
  reserved := by
    intro hself
    obtain ⟨hnodup, hmem⟩ := h.reserved hself
    refine ⟨List.nodup_append_comm.mp (List.nodup_cons.mpr ⟨hfree hself, hnodup⟩), fun k => ?_⟩
    rw [hkeys, Finset.mem_insert, hmem, List.mem_append, List.mem_singleton, or_comm]

/-- Settling an open key. -/
theorem Inv.settle (h : w.Inv isDuplicate) {m : FuzzyMiddleware κ} {key : κ} {store : Finset κ}
    {committed : List κ} (hremembered : ∀ k, k ∈ m.seenKeys ↔ k ∈ committed)
    (hnodup : m.seenKeys.Nodup) (hcap : m.maxFuzzyKeys = w.middleware.maxFuzzyKeys)
    (hseen : w.middleware.seenKeys.length ≤ m.seenKeys.length)
    (hfuzzy : m.pendingFuzzyKeys = w.middleware.pendingFuzzyKeys.erase key)
    (hkeys : m.pendingKeys = w.middleware.pendingKeys.erase key) :
    (⟨m, store, w.openKeys.erase key, committed⟩ : World κ).Inv isDuplicate where
  remembered := hremembered
  nodup := hnodup
  fuzzy := by
    intro hlt
    dsimp only at hlt ⊢
    rw [hfuzzy]
    exact (h.fuzzy (by omega)).erase key
  reserved := by
    intro hself
    obtain ⟨hopen, hmem⟩ := h.reserved hself
    refine ⟨hopen.erase key, fun k => ?_⟩
    rw [hkeys, Finset.mem_erase, hmem, hopen.mem_erase_iff]

/-- The step lemma: every event keeps the invariant. -/
theorem Inv.next (h : w.Inv isDuplicate) {event : Event κ} (hstep : Step isDuplicate w event w') :
    w'.Inv isDuplicate := by
  cases event with
  | process key fails =>
    obtain rfl := Option.some.inj hstep
    obtain ⟨r, hr, hrun, -⟩ | ⟨hcap, hpending, -, hrun⟩ | ⟨hcap, hunlike, hrun⟩ :=
      w.processed_cases isDuplicate key fails
    · simp only [hrun, if_neg hr]
      exact h
    · simp only [hrun, if_true]
      refine h.reserve rfl rfl (fun hlt => absurd hlt (Nat.not_lt_of_le hcap)) rfl fun hself hopen => ?_
      exact hpending (((h.reserved hself).2 key).mpr hopen)
    · simp only [hrun, if_true]
      refine h.reserve rfl rfl (fun _ => rfl) rfl fun hself hopen => ?_
      have hmem : key ∈ w.middleware.seenKeys ++ w.middleware.pendingFuzzyKeys :=
        List.mem_append_right _ ((h.fuzzy hcap).mem_iff.mpr hopen)
      exact absurd ((hself key).symm.trans (hunlike key hmem)) nofun
  | commit key fails =>
    unfold Step World.next at hstep
    dsimp only at hstep
    by_cases hopen : key ∈ w.openKeys
    · rw [if_pos hopen] at hstep
      obtain rfl := Option.some.inj hstep
      unfold FuzzyMiddleware.commit
      cases fails with
      | true => exact h.settle h.remembered h.nodup rfl le_rfl rfl rfl
      | false =>
        by_cases hseen : key ∈ w.middleware.seenKeys
        · rw [if_neg fun hboth => hboth.2 hseen]
          refine h.settle (fun k => ?_) h.nodup rfl le_rfl rfl rfl
          change k ∈ w.middleware.seenKeys ↔ k ∈ w.committed ++ [key]
          rw [h.remembered, List.mem_append, List.mem_singleton]
          refine ⟨.inl, fun hk => hk.elim id ?_⟩
          rintro rfl
          exact (h.remembered k).mp hseen
        · rw [if_pos ⟨rfl, hseen⟩]
          refine h.settle (fun k => ?_) ?_ rfl ?_ rfl rfl
          · change k ∈ w.middleware.seenKeys ++ [key] ↔ k ∈ w.committed ++ [key]
            rw [List.mem_append, List.mem_append, h.remembered]
          · exact List.nodup_append_comm.mp (List.nodup_cons.mpr ⟨hseen, h.nodup⟩)
          · change _ ≤ (w.middleware.seenKeys ++ [key]).length
            rw [List.length_append]
            exact Nat.le_add_right _ _
    · rw [if_neg hopen] at hstep
      cases hstep
  | discard key =>
    unfold Step World.next at hstep
    dsimp only at hstep
    by_cases hopen : key ∈ w.openKeys
    · rw [if_pos hopen] at hstep
      obtain rfl := Option.some.inj hstep
      exact h.settle h.remembered h.nodup rfl le_rfl rfl rfl
    · rw [if_neg hopen] at hstep
      cases hstep

/-- As long as the cap has room for the committed keys, these are the remembered ones, each once. -/
def Remembers (w : World κ) : Prop :=
  w.committed.toFinset.card ≤ w.middleware.maxFuzzyKeys →
    (∀ k, k ∈ w.middleware.seenKeys ↔ k ∈ w.committed) ∧ w.middleware.seenKeys.Nodup ∧
      w.middleware.seenKeys.length ≤ w.middleware.maxFuzzyKeys

theorem Inv.remembers (h : w.Inv isDuplicate) : w.Remembers := by
  intro hroom
  refine ⟨h.remembered, h.nodup, ?_⟩
  have hsame : w.middleware.seenKeys.toFinset = w.committed.toFinset := by
    ext k
    rw [List.mem_toFinset, List.mem_toFinset, h.remembered]
  rwa [← List.toFinset_card_of_nodup h.nodup, hsame]

/-- In every run, from any store and with any cap, a record that is let through is like no pending and no
committed key below the cap, and at the cap not in the store unless failures let it through; and as long
as there is room for them, the committed keys are remembered. -/
theorem process_safe (isDuplicate : κ → κ → Bool) (maxFuzzyKeys : ℕ)
    (policy : DedupStoreFailurePolicy) (store : Finset κ) (events : List (Event κ)) (w : World κ) :
    Effect.Runs (Step isDuplicate) (init maxFuzzyKeys policy store) events w →
      (∀ event, w.Safe isDuplicate event) ∧ w.Remembers := by
  intro hrun
  have hinv : w.Inv isDuplicate := Effect.Runs.invariant (I := fun _ w => w.Inv isDuplicate)
    (inv_init maxFuzzyKeys policy store) (fun _ _ _ _ h hstep => h.next hstep) hrun
  exact ⟨hinv.safe, hinv.remembers⟩

/-- Keys are alike if their halves are. -/
def sameHalf (key seen : ℕ) : Bool := key / 2 == seen / 2

/-- A record is let through and committed, and another one is compared with it and dropped. -/
theorem process_safe_sameHalf :
    ∃ w : World ℕ, Effect.Runs (Step sameHalf) (init 2 .failClosed {9})
        [.process 4 false, .commit 4 false, .process 5 false] w ∧
      (∀ event, w.Safe sameHalf event) ∧ w.Remembers ∧ w.middleware.seenKeys = [4] ∧
        ¬ w.LetsThrough sameHalf 5 false ∧ w.LetsThrough sameHalf 6 false := by
  have hrun : Effect.Runs (Step sameHalf) (init 2 .failClosed {9})
      [.process 4 false, .commit 4 false, .process 5 false]
      ⟨⟨2, .failClosed, [4], ∅, []⟩, {4, 9}, [], [4]⟩ :=
    Effect.Runs.of_foldlM (by decide)
  obtain ⟨hsafe, hremembers⟩ := process_safe sameHalf 2 .failClosed {9} _ _ hrun
  exact ⟨_, hrun, hsafe, hremembers, rfl, by unfold LetsThrough; decide, .inl (by decide)⟩

/-- What a record that is let through is held to regardless of the cap, and the cap itself. -/
def Strict (isDuplicate : κ → κ → Bool) (w : World κ) (event : Event κ) (w' : World κ) : Prop :=
  (∀ key fails, event = .process key fails → w.LetsThrough isDuplicate key fails →
    key ∉ w.store ∧ ∀ k ∈ w.openKeys ++ w.committed, isDuplicate key k = false) ∧
  w'.middleware.seenKeys.length ≤ w'.middleware.maxFuzzyKeys

/-- With one committed key the cap of one is reached, and a record is let through that is like it. -/
theorem not_strict_sameHalf :
    ∃ w w' : World ℕ,
      Effect.Runs (Step sameHalf) (init 1 .failClosed ∅) [.process 4 false, .commit 4 false] w ∧
      Step sameHalf w (.process 5 false) w' ∧ ¬ Strict sameHalf w (.process 5 false) w' := by
  refine ⟨⟨⟨1, .failClosed, [4], ∅, []⟩, {4}, [], [4]⟩, ⟨⟨1, .failClosed, [4], {5}, []⟩, {4}, [5], [4]⟩,
    Effect.Runs.of_foldlM (by decide), by decide +kernel, ?_⟩
  intro hstrict
  have hunlike := (hstrict.1 5 false rfl (.inl (by decide))).2 4 (by decide)
  exact absurd hunlike (by decide)

end World

end AgoraEtl.FuzzyDedup
