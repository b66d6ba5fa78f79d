import AgoraEtl.Effect.Runs
import Mathlib.Data.Finset.Insert
import Mathlib.Data.Finset.Erase
import Mathlib.Data.List.Nodup

/-!
# Exact deduplication

`process` looks for the key among the reservations, asks the store, and reserves the key if the store
does not have it. It waits for the store in between, and so do the hooks that commit a record: they
add the key to the store before they drop the reservation. Everything between two waits is one step;
the steps of different records come in any order.
-/

namespace AgoraEtl.Dedup

variable {κ : Type} [DecidableEq κ]

/-! ### The middleware -/

/-- `DedupStoreFailurePolicy`. -/
inductive DedupStoreFailurePolicy where
  | failClosed
  | failOpen
  deriving DecidableEq, Repr

/-- `DedupMiddleware` without a strategy. -/
structure DedupMiddleware (κ : Type) where
  storeFailurePolicy : DedupStoreFailurePolicy := .failClosed
  pendingKeys : Finset κ := ∅

/-- What `process` comes to: the record is returned with its hooks registered or without, it is
dropped, or the failure of the store is raised. -/
inductive Result where
  | reserved
  | unreserved
  | dropped
  | raised
  deriving DecidableEq, Repr

namespace DedupMiddleware

/-- `process` up to the store: whether it asks. -/
def asks (m : DedupMiddleware κ) (key : κ) : Bool := key ∉ m.pendingKeys

/-- `_register_commit_marker`, without the hooks. -/
def registerCommitMarker (m : DedupMiddleware κ) (key : κ) : DedupMiddleware κ :=
  { m with pendingKeys := insert key m.pendingKeys }

/-- `_handle_store_failure`. -/
def handleStoreFailure (m : DedupMiddleware κ) : Result :=
  match m.storeFailurePolicy with
  | .failOpen => .unreserved
  | .failClosed => .raised

/-- `process` from the answer of the store on; `none` if the store has raised. -/
def afterExists (m : DedupMiddleware κ) (key : κ) : Option Bool → DedupMiddleware κ × Result
  | some true => (m, .dropped)
  | some false => (m.registerCommitMarker key, .reserved)
  | none => (m, m.handleStoreFailure)

/-- What both hooks do at their end. -/
def release (m : DedupMiddleware κ) (key : κ) : DedupMiddleware κ :=
  { m with pendingKeys := m.pendingKeys.erase key }

end DedupMiddleware

/-! ### Records under way -/

/-- A call of `process` that waits for the store, with the answer once the store has it. -/
structure Waiting (κ : Type) where
  id : ℕ
  key : κ
  answer : Option Bool
  deriving DecidableEq

/-- What has become of a record that was let through: its hooks have not run, its key is being added
to the store, has been added, the commit hook has ended or has failed, the discard hook has run, or
it never had hooks. -/
inductive Status where
  | pending
  | committing
  | added
  | committed
  | failed
  | discarded
  | unreserved
  deriving DecidableEq, Repr

/-- A hook of the record has yet to end. -/
def Status.open : Status → Bool
  | .pending | .committing | .added => true
  | .committed | .failed | .discarded | .unreserved => false

/-- A record that was let through. -/
structure Passed (κ : Type) where
  id : ℕ
  key : κ
  status : Status
  deriving DecidableEq

/-- The middleware, the keys of its store and the records. -/
structure World (κ : Type) where
  middleware : DedupMiddleware κ
  store : Finset κ
  waiting : List (Waiting κ) := []
  passed : List (Passed κ) := []

namespace World

/-- Before the first record. -/
def init (policy : DedupStoreFailurePolicy) (store : Finset κ) : World κ where
  middleware := { storeFailurePolicy := policy }
  store := store

/-- What happens next. -/
inductive Event (κ : Type) where
  /-- A record comes. -/
  | process (id : ℕ) (key : κ)
  /-- The store looks the key up. -/
  | lookup (id : ℕ)
  /-- `exists` returns. -/
  | resume (id : ℕ)
  /-- `exists` raises. -/
  | refuse (id : ℕ)
  /-- The commit hook begins. -/
  | commit (id : ℕ)
  /-- The store takes the key. -/
  | add (id : ℕ)
  /-- `add` returns, and the commit hook ends. -/
  | committed (id : ℕ)
  /-- `add` raises, and the commit hook ends. -/
  | fail (id : ℕ)
  /-- The discard hook runs. -/
  | discard (id : ℕ)

/-- A call of `process` goes on. -/
def proceed (w : World κ) (call : Waiting κ) (answer : Option Bool) : World κ :=
  let (middleware, result) := w.middleware.afterExists call.key answer
  { w with
    middleware := middleware
    waiting := w.waiting.filter fun other => other.id ≠ call.id
    passed :=
      match result with
      | .reserved => ⟨call.id, call.key, .pending⟩ :: w.passed
      | .unreserved => ⟨call.id, call.key, .unreserved⟩ :: w.passed
      | .dropped | .raised => w.passed }

/-- A record has another status. -/
def mark (w : World κ) (id : ℕ) (status : Status) : World κ :=
  { w with passed := w.passed.map fun r => if r.id = id then { r with status := status } else r }

/-- A hook ends. -/
def release (w : World κ) (key : κ) : World κ :=
  { w with middleware := w.middleware.release key }

/-- One step; nothing if the event is not possible. -/
def next (w : World κ) : Event κ → Option (World κ)
  | .process id key =>
    if (w.waiting.any fun call => call.id = id) ∨ w.passed.any fun r => r.id = id then none
    else if w.middleware.asks key then some { w with waiting := ⟨id, key, none⟩ :: w.waiting }
    else some w
  | .lookup id =>
    if w.waiting.any fun call => call.id = id ∧ call.answer = none then
      some { w with waiting := w.waiting.map fun call =>
        if call.id = id then { call with answer := some (call.key ∈ w.store) } else call }
    else none
  | .resume id =>
    (w.waiting.find? fun call => call.id = id ∧ call.answer ≠ none).map fun call =>
      w.proceed call call.answer
  | .refuse id => (w.waiting.find? fun call => call.id = id).map fun call => w.proceed call none
  | .commit id =>
    (w.passed.find? fun r => r.id = id ∧ r.status = .pending).map fun _ => w.mark id .committing
  | .add id =>
    (w.passed.find? fun r => r.id = id ∧ r.status = .committing).map fun r =>
      { w.mark id .added with store := insert r.key w.store }
  | .committed id =>
    (w.passed.find? fun r => r.id = id ∧ r.status = .added).map fun r =>
      (w.mark id .committed).release r.key
  | .fail id =>
    (w.passed.find? fun r => r.id = id ∧ (r.status = .committing ∨ r.status = .added)).map fun r =>
      (w.mark id .failed).release r.key
  | .discard id =>
    (w.passed.find? fun r => r.id = id ∧ r.status = .pending).map fun r =>
      (w.mark id .discarded).release r.key

/-- The step that an event is. -/
def Step (w : World κ) (event : Event κ) (w' : World κ) : Prop := w.next event = some w'

/-! ### Letting records through -/

/-- A record is let through only if those with its key before it are discarded and the store does not
have the key. -/
def Safe (w : World κ) (_event : Event κ) (w' : World κ) : Prop :=
  ∀ r, w'.passed = r :: w.passed →
    (∀ earlier ∈ w.passed, earlier.key = r.key → earlier.status = .discarded) ∧ r.key ∉ w.store

/-- The key is free: it is not reserved, the store does not have it, and no record with it was let
through without hooks or lost its key to a failure of the store. -/
def Free (w : World κ) (key : κ) : Prop :=
  key ∉ w.middleware.pendingKeys ∧ key ∉ w.store ∧
    ∀ r ∈ w.passed, r.key = key → r.status ≠ .unreserved ∧ r.status ≠ .failed

/-- When a record is let through, its key is free at that time. -/
def Meets (w : World κ) : Event κ → Prop
  | .resume id => ∀ call ∈ w.waiting, call.id = id → call.answer = some false → w.Free call.key
  | .refuse id => ∀ call ∈ w.waiting, call.id = id →
      w.middleware.storeFailurePolicy = .failOpen → w.Free call.key
  | _ => True

/-- Every reservation is that of a record whose hooks have yet to end. -/
def Held (w : World κ) : Prop :=
  ∀ key ∈ w.middleware.pendingKeys, ∃ r ∈ w.passed, r.key = key ∧ r.status.open = true

/-- What holds in every run. -/
structure Base (w : World κ) : Prop where
  held : w.Held
  ids : (w.passed.map Passed.id).Nodup
  waitingIds : (w.waiting.map Waiting.id).Nodup
  disjoint : ∀ call ∈ w.waiting, call.id ∉ w.passed.map Passed.id

/-- What holds as long as no record is let through that should not be. -/
structure Inv (w : World κ) : Prop where
  base : w.Base
  reserved : ∀ r ∈ w.passed, r.status.open = true → r.key ∈ w.middleware.pendingKeys
  stored : ∀ r ∈ w.passed, r.status = .added ∨ r.status = .committed → r.key ∈ w.store
  unique : ∀ r ∈ w.passed, ∀ r' ∈ w.passed, r.key = r'.key → r.status ≠ .discarded →
    r'.status ≠ .discarded → r = r'

variable {w w' : World κ}

/-! ### What a step can do -/

/-- Only the calls that wait change: one more, or the same with another answer. -/
def Waits (w w' : World κ) : Prop :=
  ∃ waiting, w' = { w with waiting := waiting } ∧
    (waiting.map Waiting.id = w.waiting.map Waiting.id ∨
      ∃ id key, waiting = ⟨id, key, none⟩ :: w.waiting ∧ id ∉ w.waiting.map Waiting.id ∧
        id ∉ w.passed.map Passed.id)

/-- A record goes on to another status: to the next one, or to a last one with its key released. -/
def Moves (w : World κ) (r : Passed κ) (w' : World κ) : Prop :=
  (r.status = .pending ∧ w' = w.mark r.id .committing) ∨
  (r.status = .committing ∧ w' = { w.mark r.id .added with store := insert r.key w.store }) ∨
  (r.status.open = true ∧ ∃ status, (status = .committed ∧ r.status = .added ∨ status = .failed ∨
    status = .discarded) ∧ w' = (w.mark r.id status).release r.key)

/-- A call of `process` goes on after the store. -/
def Proceeds (w : World κ) (event : Event κ) (w' : World κ) : Prop :=
  ∃ call ∈ w.waiting, (event = .resume call.id ∧ call.answer ≠ none ∧
      w' = w.proceed call call.answer) ∨ (event = .refuse call.id ∧ w' = w.proceed call none)

omit [DecidableEq κ] in
/-- A record that is found among the passed ones is one of them. -/
theorem find?_passed {p : Passed κ → Bool} {r : Passed κ} (h : w.passed.find? p = some r) :
    r ∈ w.passed ∧ p r = true :=
  ⟨List.mem_of_find?_eq_some h, List.find?_some h⟩

/-- What a step can be: a record goes on, one comes to wait, or a passed one moves. -/
theorem step_cases {event : Event κ} (h : Step w event w') :
    w.Proceeds event w' ∨ (w.Meets event ∧ (w.Waits w' ∨ ∃ r ∈ w.passed, w.Moves r w')) := by
  unfold Step at h
  cases event with
  | process id key =>
    dsimp only [next] at h
    split at h
    next => exact absurd h nofun
    next hfresh =>
      obtain ⟨hwaiting, hpassed⟩ := not_or.mp hfresh
      split at h
      next =>
        refine .inr ⟨trivial, .inl ⟨_, (Option.some.inj h).symm, .inr ⟨id, key, rfl, ?_, ?_⟩⟩⟩
        · intro hmem
          obtain ⟨call, hcall, rfl⟩ := List.mem_map.mp hmem
          exact hwaiting (List.any_eq_true.mpr ⟨call, hcall, by simp⟩)
        · intro hmem
          obtain ⟨r, hr, rfl⟩ := List.mem_map.mp hmem
          exact hpassed (List.any_eq_true.mpr ⟨r, hr, by simp⟩)
      next =>
        obtain rfl := Option.some.inj h
        exact .inr ⟨trivial, .inl ⟨w.waiting, rfl, .inl rfl⟩⟩
  | lookup id =>
    dsimp only [next] at h
    split at h
    next =>
      refine .inr ⟨trivial, .inl ⟨_, (Option.some.inj h).symm, .inl ?_⟩⟩
      rw [List.map_map]
      refine List.map_congr_left fun call _ => ?_
      dsimp only [Function.comp_apply]
      split <;> rfl
    next => exact absurd h nofun
  | resume id =>
    obtain ⟨call, hfind, rfl⟩ := Option.map_eq_some_iff.mp h
    have hcall : call.id = id ∧ call.answer ≠ none := by simpa using List.find?_some hfind
    obtain ⟨rfl, hanswer⟩ := hcall
    exact .inl ⟨call, List.mem_of_find?_eq_some hfind, .inl ⟨rfl, hanswer, rfl⟩⟩
  | refuse id =>
    obtain ⟨call, hfind, rfl⟩ := Option.map_eq_some_iff.mp h
    have hid : call.id = id := by simpa using List.find?_some hfind
    subst hid
    exact .inl ⟨call, List.mem_of_find?_eq_some hfind, .inr ⟨rfl, rfl⟩⟩
  | commit id =>
    obtain ⟨r, hfind, rfl⟩ := Option.map_eq_some_iff.mp h
    obtain ⟨hr, hp⟩ := find?_passed hfind
    obtain ⟨rfl, hstatus⟩ : r.id = id ∧ r.status = .pending := by simpa using hp
    exact .inr ⟨trivial, .inr ⟨r, hr, .inl ⟨hstatus, rfl⟩⟩⟩
  | add id =>
    obtain ⟨r, hfind, rfl⟩ := Option.map_eq_some_iff.mp h
    obtain ⟨hr, hp⟩ := find?_passed hfind
    obtain ⟨rfl, hstatus⟩ : r.id = id ∧ r.status = .committing := by simpa using hp
    exact .inr ⟨trivial, .inr ⟨r, hr, .inr (.inl ⟨hstatus, rfl⟩)⟩⟩
  | committed id =>
    obtain ⟨r, hfind, rfl⟩ := Option.map_eq_some_iff.mp h
    obtain ⟨hr, hp⟩ := find?_passed hfind
    obtain ⟨rfl, hstatus⟩ : r.id = id ∧ r.status = .added := by simpa using hp
    exact .inr ⟨trivial, .inr ⟨r, hr, .inr (.inr ⟨by rw [hstatus]; rfl, .committed, .inl ⟨rfl, hstatus⟩,
      rfl⟩)⟩⟩
  | fail id =>
    obtain ⟨r, hfind, rfl⟩ := Option.map_eq_some_iff.mp h
    obtain ⟨hr, hp⟩ := find?_passed hfind
    obtain ⟨rfl, hstatus⟩ : r.id = id ∧ (r.status = .committing ∨ r.status = .added) := by
      simpa using hp
    have hopen : r.status.open = true := by
      rcases hstatus with h | h <;> rw [h] <;> rfl
    exact .inr ⟨trivial, .inr ⟨r, hr, .inr (.inr ⟨hopen, .failed, .inr (.inl rfl), rfl⟩)⟩⟩
  | discard id =>
    obtain ⟨r, hfind, rfl⟩ := Option.map_eq_some_iff.mp h
    obtain ⟨hr, hp⟩ := find?_passed hfind
    obtain ⟨rfl, hstatus⟩ : r.id = id ∧ r.status = .pending := by simpa using hp
    exact .inr ⟨trivial, .inr ⟨r, hr, .inr (.inr ⟨by rw [hstatus]; rfl, .discarded, .inr (.inr rfl), rfl⟩)⟩⟩

/-- What a call does that goes on: nothing to the records, or one is let through, with a reservation
or without. -/
theorem proceed_cases (w : World κ) (call : Waiting κ) (answer : Option Bool) :
    ((answer ≠ some false ∧
        (answer = none → w.middleware.storeFailurePolicy ≠ .failOpen)) ∧
      w.proceed call answer =
        { w with waiting := w.waiting.filter fun other => other.id ≠ call.id }) ∨
    (answer = some false ∧ w.proceed call answer =
      { w with
        middleware := w.middleware.registerCommitMarker call.key
        waiting := w.waiting.filter fun other => other.id ≠ call.id
        passed := ⟨call.id, call.key, .pending⟩ :: w.passed }) ∨
    ((answer = none ∧ w.middleware.storeFailurePolicy = .failOpen) ∧ w.proceed call answer =
      { w with
        waiting := w.waiting.filter fun other => other.id ≠ call.id
        passed := ⟨call.id, call.key, .unreserved⟩ :: w.passed }) := by
  rcases answer with _ | answer
  · cases hpolicy : w.middleware.storeFailurePolicy with
    | failClosed =>
      refine .inl ⟨⟨nofun, fun _ => by decide⟩, ?_⟩
      simp [proceed, DedupMiddleware.afterExists, DedupMiddleware.handleStoreFailure, hpolicy]
    | failOpen =>
      refine .inr (.inr ⟨⟨rfl, rfl⟩, ?_⟩)
      simp [proceed, DedupMiddleware.afterExists, DedupMiddleware.handleStoreFailure, hpolicy]
  · cases answer with
    | true => exact .inl ⟨⟨nofun, nofun⟩, rfl⟩
    | false => exact .inr (.inl ⟨rfl, rfl⟩)

/-! ### One record goes on -/

omit [DecidableEq κ] in
/-- Marking a record changes no identity. -/
@[simp]
theorem map_id_mark (w : World κ) (id : ℕ) (status : Status) :
    (w.mark id status).passed.map Passed.id = w.passed.map Passed.id := by
  dsimp only [mark]
  rw [List.map_map]
  refine List.map_congr_left fun r _ => ?_
  dsimp only [Function.comp_apply]
  split <;> rfl

omit [DecidableEq κ] in
/-- Records are told apart by their identities. -/
theorem eq_of_id (h : (w.passed.map Passed.id).Nodup) {r r' : Passed κ} (hr : r ∈ w.passed)
    (hr' : r' ∈ w.passed) (hid : r.id = r'.id) : r = r' :=
  List.inj_on_of_nodup_map h hr hr' hid

omit [DecidableEq κ] in
/-- After a mark the passed records are the marked one and the others. -/
theorem mem_mark (h : (w.passed.map Passed.id).Nodup) {r : Passed κ} (hr : r ∈ w.passed)
    (status : Status) (r' : Passed κ) : r' ∈ (w.mark r.id status).passed ↔
      r' = { r with status := status } ∨ (r' ∈ w.passed ∧ r'.id ≠ r.id) := by
  dsimp only [mark]
  rw [List.mem_map]
  constructor
  · rintro ⟨other, hother, rfl⟩
    by_cases hid : other.id = r.id
    · rw [if_pos hid]
      exact .inl (eq_of_id h hother hr hid ▸ rfl)
    · rw [if_neg hid]
      exact .inr ⟨hother, hid⟩
  · rintro (rfl | ⟨hr', hid⟩)
    · exact ⟨r, hr, if_pos rfl⟩
    · exact ⟨r', hr', if_neg hid⟩

/-- What is left of a move: the new status, the reservation and the store. -/
theorem Moves.spec {r : Passed κ} (h : w.Moves r w') : ∃ status, r.status.open = true ∧
    w'.passed = (w.mark r.id status).passed ∧ w'.waiting = w.waiting ∧
    w'.middleware.pendingKeys = (if status.open = true then w.middleware.pendingKeys
      else w.middleware.pendingKeys.erase r.key) ∧
    w.store ⊆ w'.store ∧
    (status = .added ∨ status = .committed → r.key ∈ w'.store ∨ r.status = .added) := by
  rcases h with ⟨hstatus, rfl⟩ | ⟨hstatus, rfl⟩ | ⟨hopen, status, hlast, rfl⟩
  · refine ⟨.committing, by rw [hstatus]; rfl, rfl, rfl, rfl, Finset.Subset.refl _, ?_⟩
    rintro (h | h)
    · exact absurd h (by decide)
    · exact absurd h (by decide)
  · exact ⟨.added, by rw [hstatus]; rfl, rfl, rfl, rfl, Finset.subset_insert _ _,
      fun _ => .inl (Finset.mem_insert_self _ _)⟩
  · refine ⟨status, hopen, rfl, rfl, ?_, Finset.Subset.refl _, ?_⟩
    · rcases hlast with ⟨rfl, -⟩ | rfl | rfl <;> rfl
    · rintro (rfl | rfl)
      · rcases hlast with ⟨h, -⟩ | h | h <;> exact absurd h (by decide)
      · rcases hlast with ⟨-, h⟩ | h | h
        · exact .inr h
        · exact absurd h (by decide)
        · exact absurd h (by decide)

/-- A passed record that moves keeps the base. -/
theorem Base.moves (h : w.Base) {r : Passed κ} (hr : r ∈ w.passed) (hmoves : w.Moves r w') :
    w'.Base := by
  obtain ⟨status, hopen, hpassed, hwaiting, hpending, -, -⟩ := hmoves.spec
  have hids : w'.passed.map Passed.id = w.passed.map Passed.id := by
    rw [hpassed, map_id_mark]
  refine ⟨fun key hkey => ?_, by rw [hids]; exact h.ids, by rw [hwaiting]; exact h.waitingIds, ?_⟩
  · rw [hpending] at hkey
    have hkey' : key ∈ w.middleware.pendingKeys ∧ (status.open = true ∨ key ≠ r.key) := by
      split at hkey
      next hstill => exact ⟨hkey, .inl hstill⟩
      next => exact ⟨Finset.mem_of_mem_erase hkey, .inr (Finset.ne_of_mem_erase hkey)⟩
    obtain ⟨other, hother, rfl, hstatus⟩ := h.held key hkey'.1
    by_cases hid : other.id = r.id
    · obtain rfl := eq_of_id h.ids hother hr hid
      have hstill := hkey'.2.resolve_right (not_not.mpr rfl)
      refine ⟨{ other with status := status }, ?_, rfl, hstill⟩
      rw [hpassed, mem_mark h.ids hr]
      exact .inl rfl
    · refine ⟨other, ?_, rfl, hstatus⟩
      rw [hpassed, mem_mark h.ids hr]
      exact .inr ⟨hother, hid⟩
  · intro call hcall
    rw [hwaiting] at hcall
    rw [hids]
    exact h.disjoint call hcall

/-- It keeps the invariant. -/
theorem Inv.moves (h : w.Inv) {r : Passed κ} (hr : r ∈ w.passed) (hmoves : w.Moves r w') :
    w'.Inv := by
  obtain ⟨status, hopen, hpassed, -, hpending, hstore, hstored⟩ := hmoves.spec
  have hnot : r.status ≠ .discarded := by
    intro hdiscarded
    rw [hdiscarded] at hopen
    exact absurd hopen (by decide)
  have hmem : ∀ r', r' ∈ w'.passed ↔ r' = { r with status := status } ∨
      (r' ∈ w.passed ∧ r'.id ≠ r.id) := by
    intro r'
    rw [hpassed]
    exact mem_mark h.base.ids hr status r'
  refine ⟨h.base.moves hr hmoves, fun r' hr' hopen' => ?_, fun r' hr' hadded => ?_, ?_⟩
  · rw [hpending]
    rcases (hmem r').mp hr' with rfl | ⟨hother, hid⟩
    · rw [if_pos hopen']
      exact h.reserved r hr hopen
    · have hreserved := h.reserved r' hother hopen'
      split
      next => exact hreserved
      next =>
        refine Finset.mem_erase.mpr ⟨fun hkey => hid ?_, hreserved⟩
        have hlive : r'.status ≠ .discarded := by
          intro hdiscarded
          rw [hdiscarded] at hopen'
          exact absurd hopen' (by decide)
        rw [h.unique r' hother r hr hkey hlive hnot]
  · rcases (hmem r').mp hr' with rfl | ⟨hother, -⟩
    · rcases hstored hadded with hkey | hadded'
      · exact hkey
      · exact hstore (h.stored r hr (.inl hadded'))
    · exact hstore (h.stored r' hother hadded)
  · intro r₁ hr₁ r₂ hr₂ hkey hlive₁ hlive₂
    rcases (hmem r₁).mp hr₁ with rfl | ⟨hother₁, hid₁⟩
    · rcases (hmem r₂).mp hr₂ with rfl | ⟨hother₂, hid₂⟩
      · rfl
      · exact absurd (congrArg Passed.id (h.unique r hr r₂ hother₂ hkey hnot hlive₂)).symm hid₂
    · rcases (hmem r₂).mp hr₂ with rfl | ⟨hother₂, -⟩
      · exact absurd (congrArg Passed.id (h.unique r₁ hother₁ r hr hkey hlive₁ hnot)) hid₁
      · exact h.unique r₁ hother₁ r₂ hother₂ hkey hlive₁ hlive₂

/-! ### A call goes on -/

omit [DecidableEq κ] in
/-- A record that comes to wait keeps the base. -/
theorem Base.waits (h : w.Base) (hwaits : w.Waits w') : w'.Base := by
  obtain ⟨waiting, rfl, hids | ⟨id, key, rfl, hfresh, hpassed⟩⟩ := hwaits
  · refine ⟨h.held, h.ids, by rw [hids]; exact h.waitingIds, fun call hcall => ?_⟩
    have hid : call.id ∈ w.waiting.map Waiting.id := by
      rw [← hids]
      exact List.mem_map_of_mem hcall
    obtain ⟨other, hother, hsame⟩ := List.mem_map.mp hid
    exact hsame ▸ h.disjoint other hother
  · refine ⟨h.held, h.ids, List.nodup_cons.mpr ⟨hfresh, h.waitingIds⟩, fun call hcall => ?_⟩
    rcases List.mem_cons.mp hcall with rfl | hcall
    · exact hpassed
    · exact h.disjoint call hcall

omit [DecidableEq κ] in
/-- It keeps the invariant. -/
theorem Inv.waits (h : w.Inv) (hwaits : w.Waits w') : w'.Inv := by
  have hbase := h.base.waits hwaits
  obtain ⟨waiting, rfl, -⟩ := hwaits
  exact ⟨hbase, h.reserved, h.stored, h.unique⟩

omit [DecidableEq κ] in
/-- A record is let through: the call does not wait any more, and the reservation is made if there
are hooks. -/
theorem Base.pass (h : w.Base) {call : Waiting κ} (hcall : call ∈ w.waiting) {status : Status}
    {middleware : DedupMiddleware κ}
    (hkeys : ∀ key ∈ middleware.pendingKeys,
      key ∈ w.middleware.pendingKeys ∨ (key = call.key ∧ status.open = true)) :
    ({ w with
        middleware := middleware
        waiting := w.waiting.filter fun other => other.id ≠ call.id
        passed := ⟨call.id, call.key, status⟩ :: w.passed } : World κ).Base := by
  refine ⟨fun key hkey => ?_, List.nodup_cons.mpr ⟨h.disjoint call hcall, h.ids⟩,
    h.waitingIds.sublist (List.filter_sublist.map Waiting.id), fun other hother => ?_⟩
  · rcases hkeys key hkey with hbefore | ⟨rfl, hopen⟩
    · obtain ⟨r, hr, hsame, hstatus⟩ := h.held key hbefore
      exact ⟨r, List.mem_cons_of_mem _ hr, hsame, hstatus⟩
    · exact ⟨⟨call.id, call.key, status⟩, List.mem_cons_self, rfl, hopen⟩
  · obtain ⟨hmem, hne⟩ := List.mem_filter.mp hother
    rw [List.map_cons, List.mem_cons, not_or]
    exact ⟨by simpa using hne, h.disjoint other hmem⟩

/-- A record that goes on keeps the base. -/
theorem Base.proceed (h : w.Base) {call : Waiting κ} (hcall : call ∈ w.waiting)
    (answer : Option Bool) : (w.proceed call answer).Base := by
  rcases w.proceed_cases call answer with ⟨-, hproceed⟩ | ⟨-, hproceed⟩ | ⟨-, hproceed⟩
  · rw [hproceed]
    exact ⟨h.held, h.ids, h.waitingIds.sublist (List.filter_sublist.map Waiting.id),
      fun other hother => h.disjoint other (List.mem_filter.mp hother).1⟩
  · rw [hproceed]
    refine h.pass hcall fun key hkey => ?_
    rcases Finset.mem_insert.mp hkey with rfl | hbefore
    · exact .inr ⟨rfl, rfl⟩
    · exact .inl hbefore
  · rw [hproceed]
    exact h.pass hcall fun key hkey => .inl hkey

omit [DecidableEq κ] in
/-- A record whose key is free may be let through. -/
theorem Inv.pass (h : w.Inv) {key : κ} (hfree : w.Free key) :
    (∀ earlier ∈ w.passed, earlier.key = key → earlier.status = .discarded) ∧ key ∉ w.store := by
  obtain ⟨hpending, hstore, hlost⟩ := hfree
  refine ⟨fun earlier hearlier hkey => ?_, hstore⟩
  subst hkey
  cases hstatus : earlier.status with
  | discarded => rfl
  | unreserved => exact absurd hstatus (hlost earlier hearlier rfl).1
  | failed => exact absurd hstatus (hlost earlier hearlier rfl).2
  | committed => exact absurd (h.stored earlier hearlier (.inr hstatus)) hstore
  | pending => exact absurd (h.reserved earlier hearlier (by rw [hstatus]; rfl)) hpending
  | committing => exact absurd (h.reserved earlier hearlier (by rw [hstatus]; rfl)) hpending
  | added => exact absurd (h.reserved earlier hearlier (by rw [hstatus]; rfl)) hpending

omit [DecidableEq κ] in
/-- A key is free if it is not in the store and its earlier records are discarded. -/
theorem Base.free (h : w.Base) {key : κ}
    (hpassed : ∀ earlier ∈ w.passed, earlier.key = key → earlier.status = .discarded)
    (hstore : key ∉ w.store) : w.Free key := by
  refine ⟨fun hkey => ?_, hstore, fun r hr hkey => ?_⟩
  · obtain ⟨r, hr, hsame, hopen⟩ := h.held key hkey
    rw [hpassed r hr hsame] at hopen
    exact absurd hopen (by decide)
  · rw [hpassed r hr hkey]
    decide

/-- A record that passes with a free key keeps the invariant. -/
theorem Inv.proceed (h : w.Inv) {call : Waiting κ} (hcall : call ∈ w.waiting)
    {answer : Option Bool}
    (hfree : answer = some false ∨ (answer = none ∧ w.middleware.storeFailurePolicy = .failOpen) →
      w.Free call.key) : (w.proceed call answer).Inv := by
  have hbase := h.base.proceed hcall answer
  have hunique : ∀ status, w.Free call.key →
      ∀ r ∈ (⟨call.id, call.key, status⟩ : Passed κ) :: w.passed,
      ∀ r' ∈ (⟨call.id, call.key, status⟩ : Passed κ) :: w.passed, r.key = r'.key →
        r.status ≠ .discarded → r'.status ≠ .discarded → r = r' := by
    intro status hfree r hr r' hr' hkey hlive hlive'
    obtain ⟨hpassed, -⟩ := h.pass hfree
    rcases List.mem_cons.mp hr with rfl | hr
    · rcases List.mem_cons.mp hr' with rfl | hr'
      · rfl
      · exact absurd (hpassed r' hr' hkey.symm) hlive'
    · rcases List.mem_cons.mp hr' with rfl | hr'
      · exact absurd (hpassed r hr hkey) hlive
      · exact h.unique r hr r' hr' hkey hlive hlive'
  rcases w.proceed_cases call answer with ⟨-, hproceed⟩ | ⟨hanswer, hproceed⟩ |
    ⟨hanswer, hproceed⟩
  · rw [hproceed] at hbase ⊢
    exact ⟨hbase, h.reserved, h.stored, h.unique⟩
  · rw [hproceed] at hbase ⊢
    refine ⟨hbase, fun r hr hopen => ?_, fun r hr hadded => ?_, hunique _ (hfree (.inl hanswer))⟩
    · rcases List.mem_cons.mp hr with rfl | hr
      · exact Finset.mem_insert_self _ _
      · exact Finset.mem_insert_of_mem (h.reserved r hr hopen)
    · rcases List.mem_cons.mp hr with rfl | hr
      · exact absurd hadded (by simp)
      · exact h.stored r hr hadded
  · rw [hproceed] at hbase ⊢
    refine ⟨hbase, fun r hr hopen => ?_, fun r hr hadded => ?_, hunique _ (hfree (.inr hanswer))⟩
    · rcases List.mem_cons.mp hr with rfl | hr
      · exact absurd hopen Bool.false_ne_true
      · exact h.reserved r hr hopen
    · rcases List.mem_cons.mp hr with rfl | hr
      · exact absurd hadded (by simp)
      · exact h.stored r hr hadded

/-- A record goes on safely exactly if it passes with a free key only. -/
theorem safe_iff_proceed (h : w.Inv) {call : Waiting κ} {answer : Option Bool} (event : Event κ) :
    Safe w event (w.proceed call answer) ↔
      (answer = some false ∨ (answer = none ∧ w.middleware.storeFailurePolicy = .failOpen) →
        w.Free call.key) := by
  have hlet : ∀ status, (w.proceed call answer).passed = ⟨call.id, call.key, status⟩ :: w.passed →
      (Safe w event (w.proceed call answer) ↔ w.Free call.key) := by
    intro status hpassed
    constructor
    · intro hsafe
      obtain ⟨hdiscarded, hstore⟩ := hsafe _ hpassed
      exact h.base.free hdiscarded hstore
    · intro hfree r hr
      obtain rfl := (List.cons_eq_cons.mp (hpassed.symm.trans hr)).1
      exact h.pass hfree
  rcases w.proceed_cases call answer with ⟨hanswer, hproceed⟩ | ⟨hanswer, hproceed⟩ |
    ⟨hanswer, hproceed⟩
  · refine iff_of_true (fun r hr => ?_) ?_
    · rw [hproceed] at hr
      exact absurd hr.symm (List.cons_ne_self _ _)
    · rintro (hfalse | ⟨hnone, hopen⟩)
      · exact absurd hfalse hanswer.1
      · exact absurd hopen (hanswer.2 hnone)
  · rw [hlet .pending (by rw [hproceed])]
    exact ⟨fun hfree _ => hfree, fun hfree => hfree (.inl hanswer)⟩
  · rw [hlet .unreserved (by rw [hproceed])]
    exact ⟨fun hfree _ => hfree, fun hfree => hfree (.inr hanswer)⟩

/-- The condition of a call that goes on. -/
theorem meets_iff_proceeds (h : w.Base) {event : Event κ} (hproceeds : w.Proceeds event w') :
    ∃ call ∈ w.waiting, ∃ answer, w' = w.proceed call answer ∧ (Meets w event ↔
      (answer = some false ∨ (answer = none ∧ w.middleware.storeFailurePolicy = .failOpen) →
        w.Free call.key)) := by
  obtain ⟨call, hcall, ⟨rfl, hanswer, rfl⟩ | ⟨rfl, rfl⟩⟩ := hproceeds
  · have hsame : ∀ other ∈ w.waiting, other.id = call.id → other = call :=
      fun other hother hid => List.inj_on_of_nodup_map h.waitingIds hother hcall hid
    refine ⟨call, hcall, call.answer, rfl, fun hmeets hfalse => ?_, fun hfree other hother hid => ?_⟩
    · rcases hfalse with hfalse | ⟨hnone, -⟩
      · exact hmeets call hcall rfl hfalse
      · exact absurd hnone hanswer
    · obtain rfl := hsame other hother hid
      exact fun hfalse => hfree (.inl hfalse)
  · have hsame : ∀ other ∈ w.waiting, other.id = call.id → other = call :=
      fun other hother hid => List.inj_on_of_nodup_map h.waitingIds hother hcall hid
    refine ⟨call, hcall, none, rfl, fun hmeets hopen => ?_, fun hfree other hother hid => ?_⟩
    · rcases hopen with hfalse | ⟨-, hopen⟩
      · exact absurd hfalse nofun
      · exact hmeets call hcall rfl hopen
    · obtain rfl := hsame other hother hid
      exact fun hopen => hfree (.inr ⟨rfl, hopen⟩)

/-! ### Runs -/

/-- A record that moves is no new one. -/
theorem passed_length_of_moves {r : Passed κ} (h : w.Moves r w') :
    w'.passed.length = w.passed.length := by
  obtain ⟨status, -, hpassed, -⟩ := h.spec
  rw [hpassed, mark, List.length_map]

/-- A step lets through only what it should exactly when it meets the condition. -/
theorem safe_iff_meets (h : w.Inv) {event : Event κ} (hstep : Step w event w') :
    Safe w event w' ↔ Meets w event := by
  rcases step_cases hstep with hproceeds | ⟨hmeets, hother⟩
  · obtain ⟨call, -, answer, rfl, hmeets⟩ := meets_iff_proceeds h.base hproceeds
    rw [hmeets]
    exact safe_iff_proceed h event
  · refine iff_of_true (fun r hr => ?_) hmeets
    have hlength := congrArg List.length hr
    rw [List.length_cons] at hlength
    rcases hother with ⟨waiting, rfl, -⟩ | ⟨moved, -, hmoves⟩
    · exact absurd hlength (Nat.ne_of_lt (Nat.lt_succ_self _))
    · rw [passed_length_of_moves hmoves] at hlength
      omega

/-- Every step keeps the base. -/
theorem Base.next (h : w.Base) {event : Event κ} (hstep : Step w event w') : w'.Base := by
  rcases step_cases hstep with ⟨call, hcall, ⟨-, -, rfl⟩ | ⟨-, rfl⟩⟩ | ⟨-, hwaits | ⟨r, hr, hmoves⟩⟩
  · exact h.proceed hcall _
  · exact h.proceed hcall none
  · exact h.waits hwaits
  · exact h.moves hr hmoves

/-- A step under its condition keeps the invariant. -/
theorem Inv.next (h : w.Inv) {event : Event κ} (hstep : Step w event w') (hmeets : Meets w event) :
    w'.Inv := by
  rcases step_cases hstep with hproceeds | ⟨-, hwaits | ⟨r, hr, hmoves⟩⟩
  · obtain ⟨call, hcall, answer, rfl, hiff⟩ := meets_iff_proceeds h.base hproceeds
    exact h.proceed hcall (hiff.mp hmeets)
  · exact h.waits hwaits
  · exact h.moves hr hmoves

omit [DecidableEq κ] in
/-- The base holds at the start. -/
theorem base_init (policy : DedupStoreFailurePolicy) (store : Finset κ) :
    (init policy store).Base :=
  ⟨fun _ hkey => absurd hkey (Finset.notMem_empty _), List.nodup_nil, List.nodup_nil,
    fun _ hcall => absurd hcall List.not_mem_nil⟩

omit [DecidableEq κ] in
/-- The invariant holds at the start. -/
theorem inv_init (policy : DedupStoreFailurePolicy) (store : Finset κ) : (init policy store).Inv :=
  ⟨base_init policy store, fun _ hr => absurd hr List.not_mem_nil,
    fun _ hr => absurd hr List.not_mem_nil, fun _ hr => absurd hr List.not_mem_nil⟩

/-- Records of one key are let through one between two discards exactly if, whenever one is let
through, its key is free at that time; and no reservation is left when all hooks have ended. -/
theorem dedup_iff (policy : DedupStoreFailurePolicy) (store : Finset κ) (events : List (Event κ))
    (w : World κ) :
    (Effect.Runs (fun w event w' => Step w event w' ∧ Safe w event w') (init policy store) events w ↔
      Effect.Runs (fun w event w' => Step w event w' ∧ Meets w event) (init policy store) events w) ∧
    (Effect.Runs Step (init policy store) events w →
      (∀ r ∈ w.passed, r.status.open = false) → w.middleware.pendingKeys = ∅) := by
  refine ⟨Effect.Runs.iff_of_invariant (inv_init policy store)
    (fun _ _ _ h hstep => safe_iff_meets h hstep) (fun _ _ _ h hstep hmeets => h.next hstep hmeets),
    fun hrun hdone => ?_⟩
  have hbase : w.Base := Effect.Runs.invariant (I := fun _ w => w.Base) (base_init policy store)
    (fun _ _ _ _ h hstep => h.next hstep) hrun
  refine Finset.eq_empty_of_forall_notMem fun key hkey => ?_
  obtain ⟨r, hr, -, hopen⟩ := hbase.held key hkey
  exact absurd ((hdone r hr).symm.trans hopen) (by decide)

/-- Two records of one key; the store looks it up for both before the first is let through. -/
def bothAsk : List (Event String) :=
  [.process 0 "a", .process 1 "a", .lookup 0, .lookup 1, .resume 0]

/-- Both are let through, and the second should not be. -/
theorem not_safe_bothAsk :
    (∃ w, Effect.Runs Step (init .failClosed ∅) (bothAsk ++ [Event.resume 1]) w) ∧
    ¬ ∃ w, Effect.Runs (fun w event w' => Step w event w' ∧ Safe w event w') (init .failClosed ∅)
      (bothAsk ++ [Event.resume 1]) w := by
  have htwo : ((bothAsk ++ [Event.resume 1]).foldlM next (init .failClosed ∅)).map World.passed =
      some [⟨1, "a", .pending⟩, ⟨0, "a", .pending⟩] := by decide +kernel
  refine ⟨?_, ?_⟩
  · obtain ⟨w, hw, -⟩ := Option.map_eq_some_iff.mp htwo
    exact ⟨w, Effect.Runs.of_foldlM hw⟩
  rintro ⟨w, hrun⟩
  obtain ⟨before, hfront, -, hsafe⟩ := hrun.last
  have hbefore : bothAsk.foldlM next (init .failClosed ∅) = some before :=
    hfront.foldlM_eq fun _ _ _ h => h.1
  have hw : (bothAsk ++ [Event.resume 1]).foldlM next (init .failClosed ∅) = some w :=
    hrun.foldlM_eq fun _ _ _ h => h.1
  have hone : (bothAsk.foldlM next (init .failClosed ∅)).map World.passed =
      some [⟨0, "a", .pending⟩] := by decide +kernel
  rw [hbefore, Option.map_some, Option.some.injEq] at hone
  rw [hw, Option.map_some, Option.some.injEq] at htwo
  obtain ⟨hdiscarded, -⟩ := hsafe ⟨1, "a", .pending⟩ (by rw [hone, htwo])
  have hfirst := hdiscarded ⟨0, "a", .pending⟩ (by rw [hone]; exact List.mem_cons_self) rfl
  exact absurd hfirst (by decide)

end World

end AgoraEtl.Dedup
