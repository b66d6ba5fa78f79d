import AgoraEtl.State.KeyValue
import Mathlib.Data.Finset.Card

/-!
# The LLM cache in memory

`InMemoryLLMCache` keeps its values in a store with a lifetime and the keys in the order of their last
use.  The two are updated separately, but have the same keys at every time (`Inv.mem_order_iff`).

What a run does is said from its history: the value that was set last and not evicted since (`storedBy`),
and the other keys that were used since the last use of a key (`usedSince`).  A call of `set` whose
lifetime is too large for a float raises, after it has taken out the oldest key of a full cache;
`inMemoryLLMCache_lru_iff` says that the cache is a least recently used one with a lifetime in the runs
without such a call, and in no others.
-/

namespace AgoraEtl

/-- A call of the cache. -/
inductive LlmCall : Type where
  | get (key : Text)
  | set (key : Text) (value : Text) (ttl : ℤ)

/-- The key of a call. -/
def LlmCall.key : LlmCall → Text
  | .get key => key
  | .set key _ _ => key

/-- The lifetime of a call can be added to a clock reading. -/
def LlmCall.Fits : LlmCall → Prop
  | .get _ => True
  | .set _ _ ttl => |ttl| < Double.intLimit

instance (call : LlmCall) : Decidable call.Fits :=
  match call with
  | .get _ => inferInstanceAs (Decidable True)
  | .set _ _ ttl => inferInstanceAs (Decidable (|ttl| < Double.intLimit))

/-- How a call ends: with what it returns, or with an exception. -/
inductive LlmReply : Type where
  | returned (value : Option Text)
  | raised
deriving DecidableEq

/-- In-memory LLM cache; the order holds the clock readings of the last uses. -/
structure InMemoryLLMCache : Type where
  maxSize : ℕ
  store : TTLKeyValueStore Text
  order : OrderedDict Text ℚ

namespace InMemoryLLMCache

/-- `LLM_CACHE_DEFAULT_TTL_S`. -/
def defaultTtl : ℤ := 86400

def create (maxSize : ℕ) : InMemoryLLMCache where
  maxSize := maxSize
  store := { backend := .empty, nameSpace := "llm_cache".toList, defaultTtl := some defaultTtl }
  order := .empty

/-- `self._order.pop(key, None)`. -/
def pop (order : OrderedDict Text ℚ) (key : Text) : OrderedDict Text ℚ :=
  order.filterKeys fun k => decide (k ≠ key)

/-- A call of `get`, at the readings of `time.time()` and `time.monotonic()`. -/
def get (c : InMemoryLLMCache) (now monotonic : ℚ) (key : Text) : Option Text × InMemoryLLMCache :=
  match (c.store.get now key).1 with
  | none => (none, { c with store := (c.store.get now key).2, order := pop c.order key })
  | some value =>
    (some value, { c with store := (c.store.get now key).2, order := (pop c.order key).set key monotonic })

/-- Make room for a new key; `popitem` raises if there is nothing to take out. -/
def makeRoom (c : InMemoryLLMCache) (key : Text) : Option InMemoryLLMCache :=
  if c.order.get? key = none ∧ c.maxSize ≤ c.order.entries.length then
    match c.order.entries with
    | [] => none
    | (oldestKey, _) :: _ =>
      some { c with store := c.store.delete oldestKey, order := pop c.order oldestKey }
  else some c

/-- A call of `set`. When the lifetime is too large for a float, the room is made all the same. -/
def set (c : InMemoryLLMCache) (now monotonic : ℚ) (key value : Text) (ttl : ℤ) :
    LlmReply × InMemoryLLMCache :=
  match c.makeRoom key with
  | none => (.raised, c)
  | some c =>
    match c.store.set now key value (some ttl) with
    | none => (.raised, c)
    | some store =>
      (.returned none, { c with store := store, order := (pop c.order key).set key monotonic })

/-- A call, with how it ends. -/
def call (c : InMemoryLLMCache) (now monotonic : ℚ) : LlmCall → LlmReply × InMemoryLLMCache
  | .get key => (.returned (c.get now monotonic key).1, (c.get now monotonic key).2)
  | .set key value ttl => c.set now monotonic key value ttl

/-- The number of entries that have not expired. -/
def liveCount (c : InMemoryLLMCache) (now : ℚ) : ℕ :=
  c.store.backend.values.entries.countP fun entry => !expired now entry.2.expiresAt

end InMemoryLLMCache

/-! ### Histories -/

/-- A call that was made, with the caches before and after it. -/
structure LlmStep : Type where
  before : InMemoryLLMCache
  now : ℚ
  call : LlmCall
  reply : LlmReply
  after : InMemoryLLMCache

namespace LlmStep

/-- A call that sets a key or reads it successfully uses it. -/
def used (s : LlmStep) : Option Text :=
  match s.call, s.reply with
  | .get key, .returned (some _) => some key
  | .set key _ _, .returned _ => some key
  | _, _ => none

/-- The entry of another key than that of the call is gone after it. -/
def Evicts (s : LlmStep) (key : Text) : Prop :=
  key ≠ s.call.key ∧ s.before.store.stored? key ≠ none ∧ s.after.store.stored? key = none

instance (s : LlmStep) (key : Text) : Decidable (s.Evicts key) :=
  inferInstanceAs (Decidable (_ ∧ _ ∧ _))

end LlmStep

/-- The last value set for a key and when it expires, if it was not evicted since. -/
def storedBy (history : List LlmStep) (key : Text) : Option (Text × ℚ) :=
  history.foldl (fun stored s =>
    if s.Evicts key then none
    else
      match s.call with
      | .get _ => stored
      | .set key' value ttl =>
        if key' = key then ((Double.addInt s.now ttl).map fun expiresAt => (value, expiresAt)).or stored
        else stored) none

/-- The other keys that were used since the last use of a key. -/
def usedSince (history : List LlmStep) (key : Text) : Finset Text :=
  history.foldl (fun keys s =>
    match s.used with
    | none => keys
    | some key' => if key' = key then ∅ else insert key' keys) ∅

/-- The value that is found for a key: the last one set, unless it expired or was evicted. -/
def foundBy (history : List LlmStep) (now : ℚ) (key : Text) : Option Text :=
  ((storedBy history key).filter fun stored => decide (now < stored.2)).map Prod.fst

/-- The calls one after the other, each at its readings of the two clocks. -/
def InMemoryLLMCache.steps (c : InMemoryLLMCache) : List (ℚ × ℚ × LlmCall) → List LlmStep
  | [] => []
  | (now, monotonic, call) :: calls =>
    ⟨c, now, call, (c.call now monotonic call).1, (c.call now monotonic call).2⟩ ::
      steps (c.call now monotonic call).2 calls

/-- The calls of a run are those that were asked for. -/
theorem InMemoryLLMCache.map_call_steps (calls : List (ℚ × ℚ × LlmCall)) (c : InMemoryLLMCache) :
    (c.steps calls).map LlmStep.call = calls.map fun call => call.2.2 := by
  induction calls generalizing c with
  | nil => rfl
  | cons call calls ih => exact congrArg (call.2.2 :: ·) (ih _)

/-- A run is that of a least recently used cache with a lifetime. -/
structure LruRun (maxSize : ℕ) (steps : List LlmStep) : Prop where
  returns : ∀ s ∈ steps, s.reply ≠ .raised
  reply : ∀ history s later, steps = history ++ s :: later → ∀ key, s.call = .get key →
    s.reply = .returned (foundBy history s.now key)
  evicts : ∀ history s later, steps = history ++ s :: later → ∀ key, s.Evicts key →
    maxSize ≤ (usedSince (history ++ [s]) key).card
  live : ∀ s ∈ steps, ∀ now, s.after.liveCount now ≤ maxSize

/-! ### One call -/

namespace InMemoryLLMCache

variable {c : InMemoryLLMCache}

/-- The keys without one of them. -/
def others (keys : List Text) (key : Text) : List Text := keys.filter fun k => decide (k ≠ key)

/-- The other keys are those that are not the key. -/
theorem mem_others {keys : List Text} {key k : Text} : k ∈ others keys key ↔ k ∈ keys ∧ k ≠ key := by
  rw [others, List.mem_filter, decide_eq_true_eq]

/-- They are no more than all keys. -/
theorem length_others_le (keys : List Text) (key : Text) : (others keys key).length ≤ keys.length :=
  List.length_filter_le _ _

/-- They are fewer if the key is one of them. -/
theorem length_others_lt {keys : List Text} {key : Text} (h : key ∈ keys) :
    (others keys key).length < keys.length :=
  List.length_filter_lt_length_iff_exists.mpr ⟨key, h, by simp⟩

/-- Taking a key out of the order leaves the others. -/
theorem keys_pop (order : OrderedDict Text ℚ) (key : Text) :
    (pop order key).keys = others order.keys key := by
  unfold pop OrderedDict.filterKeys OrderedDict.keys others
  rw [List.filter_map]
  rfl

/-- A key that is used becomes the last one. -/
theorem keys_touch (order : OrderedDict Text ℚ) (key : Text) (monotonic : ℚ) :
    ((pop order key).set key monotonic).keys = others order.keys key ++ [key] := by
  have hnew : key ∉ (pop order key).keys := fun h => (mem_others.mp (keys_pop order key ▸ h)).2 rfl
  rw [OrderedDict.keys, OrderedDict.entries_set_of_not_mem hnew, List.map_append, ← keys_pop]
  rfl

/-- What `get` returns, and what it leaves in the store and in the order. -/
theorem get_spec (c : InMemoryLLMCache) (now monotonic : ℚ) (key : Text) :
    (c.get now monotonic key).1 =
        ((c.store.stored? key).filter fun entry => !expired now entry.expiresAt).map StoredValue.value ∧
      (c.get now monotonic key).2.store = (c.store.get now key).2 ∧
      (c.get now monotonic key).2.order.keys = others c.order.keys key ++
        ((c.get now monotonic key).1.map fun _ => key).toList ∧
      (c.get now monotonic key).2.maxSize = c.maxSize := by
  rw [← TTLKeyValueStore.get_fst]
  unfold get
  cases (c.store.get now key).1 with
  | none => exact ⟨rfl, rfl, by rw [keys_pop]; exact (List.append_nil _).symm, rfl⟩
  | some value => exact ⟨rfl, rfl, keys_touch _ _ _, rfl⟩

/-- There is room, or the oldest key is taken out for a new one. -/
theorem makeRoom_cases (hsize : 1 ≤ c.maxSize) (key : Text) :
    ((key ∈ c.order.keys ∨ c.order.keys.length < c.maxSize) ∧ c.makeRoom key = some c) ∨
      ∃ oldest later, c.order.keys = oldest :: later ∧ key ∉ c.order.keys ∧
        c.maxSize ≤ c.order.keys.length ∧
        c.makeRoom key =
          some { c with store := c.store.delete oldest, order := pop c.order oldest } := by
  have hlength : c.order.keys.length = c.order.entries.length := List.length_map _
  unfold makeRoom
  by_cases hfull : c.order.get? key = none ∧ c.maxSize ≤ c.order.entries.length
  · rw [if_pos hfull]
    cases hentries : c.order.entries with
    | nil => rw [hentries, List.length_nil] at hfull; omega
    | cons entry entries =>
      obtain ⟨oldest, reading⟩ := entry
      refine .inr ⟨oldest, entries.map Prod.fst, ?_, OrderedDict.get?_eq_none_iff.mp hfull.1,
        hlength ▸ hfull.2, rfl⟩
      rw [OrderedDict.keys, hentries, List.map_cons]
  · rw [if_neg hfull]
    refine .inl ⟨?_, rfl⟩
    rw [hlength]
    by_contra hroom
    push Not at hroom
    exact hfull ⟨OrderedDict.get?_eq_none_iff.mpr hroom.1, hroom.2⟩

end InMemoryLLMCache

/-! ### One more step of a history -/

variable {history : List LlmStep} {s : LlmStep} {key : Text}

/-- A step stores its own value, or evicts a key. -/
theorem storedBy_append :
    storedBy (history ++ [s]) key =
      if s.Evicts key then none
      else
        match s.call with
        | .get _ => storedBy history key
        | .set key' value ttl =>
          if key' = key then
            ((Double.addInt s.now ttl).map fun expiresAt => (value, expiresAt)).or (storedBy history key)
          else storedBy history key :=
  List.foldl_append

/-- A step uses its own key. -/
theorem usedSince_append :
    usedSince (history ++ [s]) key =
      match s.used with
      | none => usedSince history key
      | some key' => if key' = key then ∅ else insert key' (usedSince history key) :=
  List.foldl_append

/-- Another key than that of the call that still has an entry is as it was. -/
theorem storedBy_append_of_ne (hne : key ≠ s.call.key) (hevicts : ¬ s.Evicts key) :
    storedBy (history ++ [s]) key = storedBy history key := by
  rw [storedBy_append, if_neg hevicts]
  cases hcall : s.call with
  | get key' => rfl
  | set key' value ttl =>
    rw [hcall] at hne
    exact if_neg hne.symm

/-- The key that a step uses is that of its call. -/
theorem used_eq_key {key' : Text} (h : s.used = some key') : key' = s.call.key := by
  unfold LlmStep.used at h
  split at h <;> simp_all [LlmCall.key]

/-- What is used since the last use of another key grows by the key that is used. -/
theorem mem_usedSince_append (hne : s.used ≠ some key) {key' : Text} :
    key' ∈ usedSince (history ++ [s]) key ↔ s.used = some key' ∨ key' ∈ usedSince history key := by
  rw [usedSince_append]
  cases hused : s.used with
  | none => simp
  | some k =>
    have hk : k ≠ key := fun h => hne (h ▸ hused)
    dsimp only
    rw [if_neg hk, Finset.mem_insert, Option.some.injEq, eq_comm]

/-! ### The invariant -/

/-- The store and the order of a cache after a history that ended at a clock reading. -/
structure LlmInv (maxSize : ℕ) (history : List LlmStep) (time : ℚ) (c : InMemoryLLMCache) : Prop where
  maxSize_eq : c.maxSize = maxSize
  mem_order_iff : ∀ key, key ∈ c.order.keys ↔ c.store.stored? key ≠ none
  length_le : c.order.keys.length ≤ maxSize
  owns : c.store.Owns
  stored : ∀ key entry, c.store.stored? key = some entry →
    ∃ value expiresAt, entry = ⟨value, some expiresAt⟩ ∧ storedBy history key = some (value, expiresAt)
  gone : ∀ key stored, storedBy history key = some stored → c.store.stored? key = none → stored.2 ≤ time
  recent : c.order.keys.Pairwise fun k k' => k' ∈ usedSince history k

/-- What a call does to the store and to the order. -/
structure LlmStep.Sound (s : LlmStep) : Prop where
  maxSize_eq : s.after.maxSize = s.before.maxSize
  other : ∀ key ≠ s.call.key, s.after.store.stored? key = s.before.store.stored? key ∨
    s.after.store.stored? key = none
  get : ∀ key, s.call = .get key → s.after.store.stored? key =
    (s.before.store.stored? key).filter fun entry => !expired s.now entry.expiresAt
  set : ∀ key value ttl, s.call = .set key value ttl → s.after.store.stored? key =
    ((Double.addInt s.now ttl).map fun expiresAt => ⟨value, some expiresAt⟩).or
      (s.before.store.stored? key)
  order : ∃ kept, kept.Sublist s.before.order.keys ∧ (∀ key ∈ kept, s.used ≠ some key) ∧
    s.after.order.keys = kept ++ s.used.toList

/-- An entry expires at its time. -/
theorem expired_some {now expiresAt : ℚ} : expired now (some expiresAt) = decide (expiresAt ≤ now) := rfl

variable {maxSize : ℕ} {time : ℚ} {c : InMemoryLLMCache}

open InMemoryLLMCache (others mem_others length_others_le length_others_lt)

/-- After a sound call the entries in the store are the values that were set last. -/
theorem LlmInv.stored_next (h : LlmInv maxSize history time s.before) (hs : s.Sound)
    (entry : StoredValue Text ℚ) (hentry : s.after.store.stored? key = some entry) :
    ∃ value expiresAt, entry = ⟨value, some expiresAt⟩ ∧
      storedBy (history ++ [s]) key = some (value, expiresAt) := by
  have hevicts : ¬ s.Evicts key := fun hgone => absurd (hgone.2.2.symm.trans hentry) nofun
  by_cases hkey : key = s.call.key
  · cases hcall : s.call with
    | get key' =>
      obtain rfl : key = key' := by rw [hkey, hcall]; rfl
      rw [hs.get key hcall, Option.filter_eq_some_iff] at hentry
      obtain ⟨value, expiresAt, hvalue, hstored⟩ := h.stored key entry hentry.1
      refine ⟨value, expiresAt, hvalue, ?_⟩
      rw [storedBy_append, if_neg hevicts, hcall]
      exact hstored
    | set key' value ttl =>
      obtain rfl : key = key' := by rw [hkey, hcall]; rfl
      rw [hs.set key value ttl hcall] at hentry
      rw [storedBy_append, if_neg hevicts, hcall]
      dsimp only
      rw [if_pos rfl]
      cases hexpiry : Double.addInt s.now ttl with
      | none =>
        rw [hexpiry] at hentry
        exact h.stored key entry hentry
      | some expiresAt =>
        rw [hexpiry] at hentry
        exact ⟨value, expiresAt, (Option.some.inj hentry).symm, rfl⟩
  · rw [storedBy_append_of_ne hkey hevicts]
    rcases hs.other key hkey with hsame | hnone
    · exact h.stored key entry (hsame ▸ hentry)
    · exact absurd (hnone.symm.trans hentry) nofun

/-- After a sound call a value that was set and is not in the store has expired. -/
theorem LlmInv.gone_next (h : LlmInv maxSize history time s.before) (hs : s.Sound)
    (htime : time ≤ s.now) {stored : Text × ℚ} (hstored : storedBy (history ++ [s]) key = some stored)
    (hnone : s.after.store.stored? key = none) : stored.2 ≤ s.now := by
  have hevicts : ¬ s.Evicts key := by
    intro hgone
    rw [storedBy_append, if_pos hgone] at hstored
    exact absurd hstored nofun
  by_cases hkey : key = s.call.key
  · cases hcall : s.call with
    | get key' =>
      obtain rfl : key = key' := by rw [hkey, hcall]; rfl
      rw [storedBy_append, if_neg hevicts, hcall] at hstored
      cases hbefore : s.before.store.stored? key with
      | none => exact (h.gone key stored hstored hbefore).trans htime
      | some entry =>
        obtain ⟨value, expiresAt, rfl, hstored'⟩ := h.stored key entry hbefore
        obtain rfl := Option.some.inj (hstored'.symm.trans hstored)
        rw [hs.get key hcall, hbefore, Option.filter_some, expired_some] at hnone
        by_contra hlive
        rw [decide_eq_false hlive] at hnone
        exact absurd hnone nofun
    | set key' value ttl =>
      obtain rfl : key = key' := by rw [hkey, hcall]; rfl
      obtain ⟨hexpiry, hbefore⟩ := Option.or_eq_none_iff.mp ((hs.set key value ttl hcall).symm.trans hnone)
      rw [storedBy_append, if_neg hevicts, hcall] at hstored
      dsimp only at hstored
      rw [if_pos rfl, Option.map_eq_none_iff.mp hexpiry] at hstored
      exact (h.gone key stored hstored hbefore).trans htime
  · rw [storedBy_append_of_ne hkey hevicts] at hstored
    have hbefore : s.before.store.stored? key = none := by
      by_contra hfound
      exact hevicts ⟨hkey, hfound, hnone⟩
    exact (h.gone key stored hstored hbefore).trans htime

/-- After a sound call each key in the order was used before all later ones. -/
theorem LlmInv.recent_next (h : LlmInv maxSize history time s.before) (hs : s.Sound) :
    s.after.order.keys.Pairwise fun k k' => k' ∈ usedSince (history ++ [s]) k := by
  obtain ⟨kept, hsublist, hne, horder⟩ := hs.order
  rw [horder, List.pairwise_append]
  refine ⟨?_, ?_, fun k hk k' hk' => ?_⟩
  · exact (h.recent.sublist hsublist).imp_of_mem fun hk _ hmem' =>
      (mem_usedSince_append (hne _ hk)).mpr (.inr hmem')
  · cases s.used with
    | none => exact List.Pairwise.nil
    | some k => exact List.pairwise_singleton _ k
  · exact (mem_usedSince_append (hne k hk)).mpr (.inl (Option.mem_toList.mp hk'))

/-- A sound call that keeps the store and the order together keeps the invariant. -/
theorem LlmInv.next (h : LlmInv maxSize history time s.before) (hs : s.Sound) (htime : time ≤ s.now)
    (hmem : ∀ key, key ∈ s.after.order.keys ↔ s.after.store.stored? key ≠ none)
    (hlength : s.after.order.keys.length ≤ maxSize) (howns : s.after.store.Owns) :
    LlmInv maxSize (history ++ [s]) s.now s.after where
  maxSize_eq := hs.maxSize_eq.trans h.maxSize_eq
  mem_order_iff := hmem
  length_le := hlength
  owns := howns
  stored := fun _ => h.stored_next hs
  gone := fun _ _ => h.gone_next hs htime
  recent := h.recent_next hs

/-! ### The calls keep the invariant -/

/-- What is found in the store is the last value that was set, unless it expired or was evicted. -/
theorem LlmInv.found_eq (h : LlmInv maxSize history time c) {now : ℚ} (htime : time ≤ now) (key : Text) :
    ((c.store.stored? key).filter fun entry => !expired now entry.expiresAt).map StoredValue.value =
      foundBy history now key := by
  unfold foundBy
  cases hentry : c.store.stored? key with
  | none =>
    cases hstored : storedBy history key with
    | none => rfl
    | some stored =>
      have hgone := (h.gone key stored hstored hentry).trans htime
      rw [Option.filter_some, decide_eq_false (not_lt_of_ge hgone)]
      rfl
  | some entry =>
    obtain ⟨value, expiresAt, rfl, hstored⟩ := h.stored key entry hentry
    rw [hstored, Option.filter_some, Option.filter_some, expired_some, ← decide_not]
    dsimp only
    simp only [not_le]
    by_cases hlive : now < expiresAt
    · rw [if_pos (decide_eq_true hlive), if_pos (decide_eq_true hlive)]
      rfl
    · rw [decide_eq_false hlive]
      rfl

/-- There are no more live entries than keys in the order. -/
theorem LlmInv.liveCount_le (h : LlmInv maxSize history time c) (now : ℚ) : c.liveCount now ≤ maxSize :=
  calc c.liveCount now ≤ c.store.backend.values.entries.length := List.countP_le_length
    _ ≤ c.order.keys.length := h.owns.length_le fun key hfound => (h.mem_order_iff key).mpr hfound
    _ ≤ maxSize := h.length_le

/-- A read keeps the invariant. -/
theorem LlmInv.get (h : LlmInv maxSize history time c) {now : ℚ} (htime : time ≤ now) (monotonic : ℚ)
    (key : Text) :
    let s : LlmStep :=
      ⟨c, now, .get key, .returned (c.get now monotonic key).1, (c.get now monotonic key).2⟩
    (c.get now monotonic key).1 = foundBy history now key ∧ (∀ key', ¬ s.Evicts key') ∧
      LlmInv maxSize (history ++ [s]) now s.after := by
  intro s
  have hused : s.used = (c.get now monotonic key).1.map fun _ => key := by
    change LlmStep.used ⟨c, now, .get key, .returned (c.get now monotonic key).1, _⟩ = _
    cases (c.get now monotonic key).1 <;> rfl
  obtain ⟨hreply, hstore, horder, hsize⟩ := c.get_spec now monotonic key
  have hentry : ∀ key', s.after.store.stored? key' =
      if key' = key then (c.store.stored? key).filter fun entry => !expired now entry.expiresAt
      else c.store.stored? key' := by
    intro key'
    rw [← TTLKeyValueStore.stored?_get, ← hstore]
  have hgone : ∀ key', ¬ s.Evicts key' := fun key' hevicts =>
    hevicts.2.1 (((hentry key').trans (if_neg hevicts.1)).symm.trans hevicts.2.2)
  have hsound : s.Sound := by
    refine ⟨hsize, fun key' hne => .inl ((hentry key').trans (if_neg hne)), ?_, nofun, ?_⟩
    · intro key' hcall
      obtain rfl : key = key' := LlmCall.get.inj hcall
      exact (hentry key).trans (if_pos rfl)
    · refine ⟨others c.order.keys key, List.filter_sublist, fun k hk hsame => ?_, hused ▸ horder⟩
      exact (mem_others.mp hk).2 (used_eq_key hsame)
  refine ⟨hreply.trans (h.found_eq htime key), hgone, h.next hsound htime ?_ ?_ ?_⟩
  · intro key'
    rw [horder, List.mem_append, mem_others, h.mem_order_iff, hentry, hreply]
    by_cases hkey : key' = key
    · subst hkey
      rw [if_pos rfl]
      cases (c.store.stored? key').filter fun entry => !expired now entry.expiresAt <;> simp
    · have hlast : key' ∉ (((((c.store.stored? key).filter fun entry =>
          !expired now entry.expiresAt).map StoredValue.value).map fun _ => key).toList) := by
        rw [Option.mem_toList, Option.map_eq_some_iff]
        rintro ⟨_, _, rfl⟩
        exact hkey rfl
      rw [if_neg hkey, or_iff_left hlast, and_iff_left hkey]
  · rw [horder, List.length_append]
    by_cases hkey : key ∈ c.order.keys
    · have hone : (((c.get now monotonic key).1.map fun _ => key).toList).length ≤ 1 :=
        Option.length_toList_le
      have hless := length_others_lt hkey
      have hlength := h.length_le
      omega
    · have hnone : c.store.stored? key = none := by
        by_contra hfound
        exact hkey ((h.mem_order_iff key).mpr hfound)
      rw [hreply, hnone]
      exact (length_others_le _ _).trans h.length_le
  · exact hstore ▸ h.owns.get now key

/-- A cache with room for a key; some of the entries of other keys may have gone. -/
structure Room (maxSize : ℕ) (key : Text) (c c' : InMemoryLLMCache) : Prop where
  maxSize_eq : c'.maxSize = c.maxSize
  entry : ∀ k, c'.store.stored? k = c.store.stored? k ∨ c'.store.stored? k = none
  entry_self : c'.store.stored? key = c.store.stored? key
  order : c'.order.keys.Sublist c.order.keys
  mem_order_iff : ∀ k, k ∈ c'.order.keys ↔ c'.store.stored? k ≠ none
  length_le : c'.order.keys.length ≤ maxSize
  length_lt : (others c'.order.keys key).length < maxSize
  owns : c'.store.Owns

/-- The cache after a key was set. -/
def InMemoryLLMCache.put (c : InMemoryLLMCache) (monotonic : ℚ) (key value : Text) (expiresAt : ℚ) :
    InMemoryLLMCache :=
  { c with store := c.store.put key value (some expiresAt),
           order := (InMemoryLLMCache.pop c.order key).set key monotonic }

/-- A value that is put is stored under its key. -/
theorem stored?_put (c : InMemoryLLMCache) (monotonic : ℚ) (key value : Text) (expiresAt : ℚ) (k : Text) :
    (c.put monotonic key value expiresAt).store.stored? k =
      if k = key then some ⟨value, some expiresAt⟩ else c.store.stored? k :=
  TTLKeyValueStore.stored?_put key value (some expiresAt) k

/-- The cache without a key. -/
def InMemoryLLMCache.evict (c : InMemoryLLMCache) (key : Text) : InMemoryLLMCache :=
  { c with store := c.store.delete key, order := InMemoryLLMCache.pop c.order key }

/-- An evicted key is not stored any more. -/
theorem InMemoryLLMCache.stored?_evict (c : InMemoryLLMCache) (key k : Text) :
    (c.evict key).store.stored? k = if k = key then none else c.store.stored? k :=
  TTLKeyValueStore.stored?_delete key k

/-- With a lifetime that fits, the key is set where there is room for it. -/
theorem InMemoryLLMCache.set_eq_put {c room : InMemoryLLMCache} {now monotonic expiresAt : ℚ}
    {key value : Text} {ttl : ℤ} (hroom : c.makeRoom key = some room)
    (hexpiry : Double.addInt now ttl = some expiresAt) :
    c.set now monotonic key value ttl = (.returned none, room.put monotonic key value expiresAt) := by
  rw [InMemoryLLMCache.set, hroom]
  dsimp only
  rw [TTLKeyValueStore.set_some, hexpiry]
  rfl

/-- With any other lifetime there is only more room. -/
theorem InMemoryLLMCache.set_eq_raised {c room : InMemoryLLMCache} {now monotonic : ℚ} {key value : Text}
    {ttl : ℤ} (hroom : c.makeRoom key = some room) (hexpiry : Double.addInt now ttl = none) :
    c.set now monotonic key value ttl = (.raised, room) := by
  rw [InMemoryLLMCache.set, hroom]
  dsimp only
  rw [TTLKeyValueStore.set_some, hexpiry]
  rfl

/-- Setting a key where there is room for it keeps the invariant. -/
theorem LlmInv.put (h : LlmInv maxSize history time c) {room : InMemoryLLMCache}
    (hroom : Room maxSize key c room) {now : ℚ} (htime : time ≤ now) (monotonic : ℚ) (value : Text)
    {ttl : ℤ} {expiresAt : ℚ} (hexpiry : Double.addInt now ttl = some expiresAt) :
    let s : LlmStep :=
      ⟨c, now, .set key value ttl, .returned none, room.put monotonic key value expiresAt⟩
    LlmInv maxSize (history ++ [s]) now s.after := by
  intro s
  have hentry : ∀ k, s.after.store.stored? k =
      if k = key then some ⟨value, some expiresAt⟩ else room.store.stored? k :=
    stored?_put room monotonic key value expiresAt
  have horder : s.after.order.keys = others room.order.keys key ++ [key] :=
    InMemoryLLMCache.keys_touch _ _ _
  have hsound : s.Sound := by
    refine ⟨hroom.maxSize_eq, fun k hne => ?_, nofun, ?_, ?_⟩
    · have hother := (hentry k).trans (if_neg hne)
      rw [hother]
      exact hroom.entry k
    · intro key' value' ttl' hcall
      obtain ⟨rfl, rfl, rfl⟩ := LlmCall.set.inj hcall
      rw [hentry key, if_pos rfl, hexpiry]
      rfl
    · refine ⟨others room.order.keys key, List.filter_sublist.trans hroom.order, fun k hk hsame => ?_,
        horder⟩
      exact (mem_others.mp hk).2 (used_eq_key hsame)
  refine h.next hsound htime (fun k => ?_) ?_ (hroom.owns.put key value (some expiresAt))
  · rw [horder, List.mem_append, mem_others, hroom.mem_order_iff, hentry, List.mem_singleton]
    by_cases hkey : k = key
    · simp [hkey]
    · simp [hkey]
  · rw [horder, List.length_append, List.length_singleton]
    exact hroom.length_lt

/-- A call of `set` that raises after it made room keeps the invariant. -/
theorem LlmInv.refuse (h : LlmInv maxSize history time c) {room : InMemoryLLMCache}
    (hroom : Room maxSize key c room) {now : ℚ} (htime : time ≤ now) (value : Text) {ttl : ℤ}
    (hexpiry : Double.addInt now ttl = none) :
    let s : LlmStep := ⟨c, now, .set key value ttl, .raised, room⟩
    LlmInv maxSize (history ++ [s]) now s.after := by
  intro s
  have hsound : s.Sound := by
    refine ⟨hroom.maxSize_eq, fun k _ => hroom.entry k, nofun, ?_, ?_⟩
    · intro key' value' ttl' hcall
      obtain ⟨rfl, rfl, rfl⟩ := LlmCall.set.inj hcall
      rw [hexpiry]
      exact hroom.entry_self
    · exact ⟨room.order.keys, hroom.order, fun _ _ => nofun, (List.append_nil _).symm⟩
  exact h.next hsound htime hroom.mem_order_iff hroom.length_le hroom.owns

/-- A cache that holds the key, or is not full, has room for it. -/
theorem LlmInv.room_self (h : LlmInv maxSize history time c) {key : Text}
    (hfree : key ∈ c.order.keys ∨ c.order.keys.length < c.maxSize) : Room maxSize key c c := by
  refine ⟨rfl, fun _ => .inl rfl, rfl, List.Sublist.refl _, h.mem_order_iff, h.length_le, ?_, h.owns⟩
  rcases hfree with hkey | hless
  · exact (length_others_lt hkey).trans_le h.length_le
  · exact (length_others_le _ _).trans_lt (h.maxSize_eq ▸ hless)

/-- Without its oldest key a cache has room for another one. -/
theorem LlmInv.room_evicted (h : LlmInv maxSize history time c) {oldest key : Text} {later : List Text}
    (hkeys : c.order.keys = oldest :: later) (hnew : key ∉ c.order.keys) :
    Room maxSize key c (c.evict oldest) := by
  have hothers : others c.order.keys oldest = later := by
    have hnodup : (oldest :: later).Nodup := hkeys ▸ c.order.nodup
    rw [hkeys, others, List.filter_cons_of_neg (by simp), List.filter_eq_self]
    exact fun k hk => decide_eq_true fun hsame => (List.nodup_cons.mp hnodup).1 (hsame ▸ hk)
  have horder : (c.evict oldest).order.keys = later := (InMemoryLLMCache.keys_pop _ _).trans hothers
  have hlength : later.length + 1 ≤ maxSize := by
    have hle := h.length_le
    rwa [hkeys, List.length_cons] at hle
  have hne : key ≠ oldest := fun hsame => hnew (hkeys ▸ hsame ▸ List.mem_cons_self)
  refine ⟨rfl, fun k => ?_, ?_, ?_, fun k => ?_, ?_, ?_, h.owns.delete oldest⟩
  · rw [c.stored?_evict]
    by_cases hk : k = oldest
    · exact .inr (if_pos hk)
    · exact .inl (if_neg hk)
  · rw [c.stored?_evict, if_neg hne]
  · rw [horder, hkeys]
    exact List.sublist_cons_self oldest later
  · rw [horder, c.stored?_evict, ← hothers, mem_others, h.mem_order_iff]
    by_cases hk : k = oldest <;> simp [hk]
  · rw [horder]
    omega
  · rw [horder]
    exact (length_others_le later key).trans_lt hlength

/-- A call in a run is that of a least recently used cache, or raises as its lifetime does not fit. -/
structure LlmStep.Lawful (maxSize : ℕ) (history : List LlmStep) (s : LlmStep) : Prop where
  raised_iff : s.reply = .raised ↔ ¬ s.call.Fits
  reply : ∀ key, s.call = .get key → s.reply = .returned (foundBy history s.now key)
  evicts : s.reply ≠ .raised → ∀ key, s.Evicts key → maxSize ≤ (usedSince (history ++ [s]) key).card
  live : ∀ now, s.after.liveCount now ≤ maxSize

/-- A key that is evicted when another one is set was used before enough other ones. -/
theorem LlmInv.evicts (h : LlmInv maxSize history time c) {s : LlmStep} {oldest : Text} {later : List Text}
    (hkeys : c.order.keys = oldest :: later) (hfull : c.maxSize ≤ c.order.keys.length)
    (hnew : s.call.key ∉ c.order.keys) (hused : s.used = some s.call.key) :
    maxSize ≤ (usedSince (history ++ [s]) oldest).card := by
  have hrecent := h.recent
  rw [hkeys, List.pairwise_cons] at hrecent
  rw [hkeys] at hnew
  have hne : s.used ≠ some oldest := by
    rw [hused]
    exact fun hsame => hnew (Option.some.inj hsame ▸ List.mem_cons_self)
  have hsubset : insert s.call.key later.toFinset ⊆ usedSince (history ++ [s]) oldest := by
    intro k hk
    rw [mem_usedSince_append hne, hused]
    rcases Finset.mem_insert.mp hk with rfl | hk
    · exact .inl rfl
    · exact .inr (hrecent.1 k (List.mem_toFinset.mp hk))
  have hnodup : (oldest :: later).Nodup := hkeys ▸ c.order.nodup
  have hcard : (insert s.call.key later.toFinset).card = later.length + 1 := by
    rw [Finset.card_insert_of_notMem fun hmem => hnew
      (List.mem_cons_of_mem _ (List.mem_toFinset.mp hmem)),
      List.toFinset_card_of_nodup (List.nodup_cons.mp hnodup).2]
  have hfull' : maxSize ≤ later.length + 1 := by
    rwa [h.maxSize_eq, hkeys, List.length_cons] at hfull
  exact (hfull'.trans hcard.ge).trans (Finset.card_le_card hsubset)

/-- There is room for a key that is set, and what is evicted for it is the oldest key. -/
theorem LlmInv.makeRoom (h : LlmInv maxSize history time c) (hsize : 1 ≤ maxSize) (key : Text) :
    ∃ room, c.makeRoom key = some room ∧ Room maxSize key c room ∧
      ∀ k, c.store.stored? k ≠ none → room.store.stored? k = none →
        ∃ later, c.order.keys = k :: later ∧ key ∉ c.order.keys ∧ c.maxSize ≤ c.order.keys.length := by
  rcases c.makeRoom_cases (h.maxSize_eq ▸ hsize) key with
    ⟨hfree, hmake⟩ | ⟨oldest, later, hkeys, hnew, hfull, hmake⟩
  · exact ⟨c, hmake, h.room_self hfree, fun k hfound hgone => absurd hgone hfound⟩
  · refine ⟨c.evict oldest, hmake, h.room_evicted hkeys hnew, fun k hfound hgone => ?_⟩
    have hold : k = oldest := by
      by_contra hne
      rw [c.stored?_evict, if_neg hne] at hgone
      exact hfound hgone
    exact ⟨later, hold ▸ hkeys, hnew, hfull⟩

/-- A call of `set` is lawful and keeps the invariant, also when it raises. -/
theorem LlmInv.set (h : LlmInv maxSize history time c) (hsize : 1 ≤ maxSize) {now : ℚ}
    (htime : time ≤ now) (monotonic : ℚ) (key value : Text) (ttl : ℤ) :
    let s : LlmStep := ⟨c, now, .set key value ttl, (c.set now monotonic key value ttl).1,
      (c.set now monotonic key value ttl).2⟩
    s.Lawful maxSize history ∧ LlmInv maxSize (history ++ [s]) now s.after := by
  intro s
  obtain ⟨room, hmake, hroom, hevicts⟩ := h.makeRoom hsize key
  have hfits : s.call.Fits ↔ (Double.addInt now ttl).isSome := Double.addInt_isSome.symm
  cases hexpiry : Double.addInt now ttl with
  | none =>
    have hs : s = ⟨c, now, .set key value ttl, .raised, room⟩ := by
      simp only [s, InMemoryLLMCache.set_eq_raised hmake hexpiry]
    have hnext := h.refuse hroom htime value hexpiry
    rw [hexpiry] at hfits
    rw [hs] at hfits ⊢
    refine ⟨⟨iff_of_true rfl fun h => ?_, nofun, fun hraised => absurd rfl hraised, ?_⟩, hnext⟩
    · exact absurd (hfits.mp h) nofun
    · exact hnext.liveCount_le
  | some expiresAt =>
    have hs : s = ⟨c, now, .set key value ttl, .returned none,
        room.put monotonic key value expiresAt⟩ := by
      simp only [s, InMemoryLLMCache.set_eq_put hmake hexpiry]
    have hnext := h.put hroom htime monotonic value hexpiry
    rw [hexpiry] at hfits
    rw [hs] at hfits ⊢
    refine ⟨⟨iff_of_false nofun fun h => h (hfits.mpr rfl), nofun, fun _ k hgone => ?_, ?_⟩, hnext⟩
    · have hput := (stored?_put room monotonic key value expiresAt k).trans (if_neg hgone.1)
      obtain ⟨later, hkeys, hnew, hfull⟩ := hevicts k hgone.2.1 (hput.symm.trans hgone.2.2)
      exact h.evicts hkeys hfull hnew rfl
    · exact hnext.liveCount_le

/-! ### Runs -/

/-- A call is lawful and keeps the invariant. -/
theorem LlmInv.call (h : LlmInv maxSize history time c) (hsize : 1 ≤ maxSize) {now : ℚ}
    (htime : time ≤ now) (monotonic : ℚ) (call : LlmCall) :
    let s : LlmStep := ⟨c, now, call, (c.call now monotonic call).1, (c.call now monotonic call).2⟩
    s.Lawful maxSize history ∧ LlmInv maxSize (history ++ [s]) now s.after := by
  cases call with
  | get key =>
    obtain ⟨hreply, hevicts, hnext⟩ := h.get htime monotonic key
    refine ⟨⟨iff_of_false nofun fun h => h trivial, fun key' hcall => ?_,
      fun _ key' hgone => absurd hgone (hevicts key'), hnext.liveCount_le⟩, hnext⟩
    obtain rfl := LlmCall.get.inj hcall
    exact congrArg LlmReply.returned hreply
  | set key value ttl => exact h.set hsize htime monotonic key value ttl

/-- The calls after a history, whose readings of the clock do not decrease, are lawful. -/
theorem LlmInv.steps (h : LlmInv maxSize history time c) (hsize : 1 ≤ maxSize)
    {calls : List (ℚ × ℚ × LlmCall)} (hclock : (time :: calls.map Prod.fst).Pairwise (· ≤ ·)) :
    ∀ front s later, c.steps calls = front ++ s :: later → s.Lawful maxSize (history ++ front) := by
  induction calls generalizing history time c with
  | nil => exact fun front s later hsteps => absurd hsteps (by simp [InMemoryLLMCache.steps])
  | cons first calls ih =>
    obtain ⟨now, monotonic, call⟩ := first
    rw [List.map_cons, List.pairwise_cons] at hclock
    have htime : time ≤ now := hclock.1 now List.mem_cons_self
    obtain ⟨hlawful, hnext⟩ := h.call hsize htime monotonic call
    intro front s later hsplit
    cases front with
    | nil =>
      obtain ⟨rfl, -⟩ := List.cons.inj hsplit
      rw [List.append_nil]
      exact hlawful
    | cons s' front =>
      obtain ⟨rfl, hrest⟩ := List.cons.inj hsplit
      rw [List.append_cons]
      exact ih hnext hclock.2 front s later hrest

/-- An empty cache has the invariant. -/
theorem llmInv_create (maxSize : ℕ) (time : ℚ) :
    LlmInv maxSize [] time (InMemoryLLMCache.create maxSize) where
  maxSize_eq := rfl
  mem_order_iff key := by simp [InMemoryLLMCache.create, OrderedDict.keys, TTLKeyValueStore.stored?,
    MemoryBackend.empty]
  length_le := Nat.zero_le _
  owns k hk := absurd rfl hk
  stored key entry hentry := absurd hentry nofun
  gone key stored hstored := absurd hstored nofun
  recent := List.Pairwise.nil

/-- In a run from an empty cache whose clock readings do not decrease each call is lawful. -/
theorem InMemoryLLMCache.lawful {maxSize : ℕ} (hsize : 1 ≤ maxSize) {calls : List (ℚ × ℚ × LlmCall)}
    (hclock : (calls.map Prod.fst).Pairwise (· ≤ ·)) {history : List LlmStep} {s : LlmStep}
    {later : List LlmStep} (hsplit : (create maxSize).steps calls = history ++ s :: later) :
    s.Lawful maxSize history := by
  have hstart : ∃ time : ℚ, (time :: calls.map Prod.fst).Pairwise (· ≤ ·) := by
    cases calls with
    | nil => exact ⟨0, List.pairwise_singleton _ _⟩
    | cons first calls =>
      refine ⟨first.1, List.pairwise_cons.mpr ⟨fun now hnow => ?_, hclock⟩⟩
      rw [List.map_cons, List.pairwise_cons] at hclock
      rcases List.mem_cons.mp hnow with rfl | hnow
      · exact le_rfl
      · exact hclock.1 now hnow
  obtain ⟨time, htime⟩ := hstart
  exact (llmInv_create maxSize time).steps hsize htime history s later hsplit

/-- A run of calls at clock readings that do not decrease is that of a least recently used cache with a
lifetime exactly if each lifetime that is set is small enough for a float. -/
theorem inMemoryLLMCache_lru_iff {maxSize : ℕ} (hsize : 1 ≤ maxSize) {calls : List (ℚ × ℚ × LlmCall)}
    (hclock : (calls.map Prod.fst).Pairwise (· ≤ ·)) :
    LruRun maxSize ((InMemoryLLMCache.create maxSize).steps calls) ↔
      ∀ call ∈ calls, call.2.2.Fits := by
  have hlawful : ∀ {history s later},
      (InMemoryLLMCache.create maxSize).steps calls = history ++ s :: later →
        s.Lawful maxSize history := InMemoryLLMCache.lawful hsize hclock
  have hcalls := (InMemoryLLMCache.create maxSize).map_call_steps calls
  constructor
  · intro h call hcall
    have hmem : call.2.2 ∈ ((InMemoryLLMCache.create maxSize).steps calls).map LlmStep.call :=
      hcalls ▸ List.mem_map_of_mem hcall
    obtain ⟨s, hs, hsame⟩ := List.mem_map.mp hmem
    obtain ⟨history, later, hsplit⟩ := List.mem_iff_append.mp hs
    by_contra hfits
    exact h.returns s hs ((hlawful hsplit).raised_iff.mpr (hsame ▸ hfits))
  · intro hfits
    have hreturns : ∀ s ∈ (InMemoryLLMCache.create maxSize).steps calls, s.reply ≠ .raised := by
      intro s hs hraised
      obtain ⟨history, later, hsplit⟩ := List.mem_iff_append.mp hs
      obtain ⟨call, hcall, hsame⟩ := List.mem_map.mp (hcalls ▸ List.mem_map_of_mem hs)
      exact (hlawful hsplit).raised_iff.mp hraised (hsame ▸ hfits call hcall)
    refine ⟨hreturns, fun history s later hsplit => (hlawful hsplit).reply, ?_, ?_⟩
    · intro history s later hsplit
      exact (hlawful hsplit).evicts (hreturns s (hsplit ▸ List.mem_append_right _ List.mem_cons_self))
    · intro s hs
      obtain ⟨history, later, hsplit⟩ := List.mem_iff_append.mp hs
      exact (hlawful hsplit).live

/-- Two keys, a use of the first, and a third key. -/
def threeKeys : List (ℚ × ℚ × LlmCall) :=
  [(0, 0, .set ['a'] ['x'] 60), (1, 1, .set ['b'] ['y'] 60), (2, 2, .get ['a']),
    (3, 3, .set ['c'] ['z'] 60), (4, 4, .get ['b'])]

/-- The first key is used and stays, the second one makes room for the third. -/
theorem inMemoryLLMCache_lru_threeKeys :
    LruRun 2 ((InMemoryLLMCache.create 2).steps threeKeys) ∧
      ((InMemoryLLMCache.create 2).steps threeKeys).map LlmStep.reply =
        [.returned none, .returned none, .returned (some ['x']), .returned none, .returned none] :=
  ⟨(inMemoryLLMCache_lru_iff (by decide) (by decide +kernel)).mpr (by decide +kernel),
    by decide +kernel⟩

/-- A key, another one with a lifetime that is too large for a float, and a use of the first. -/
def hugeTtl : List (ℚ × ℚ × LlmCall) :=
  [(0, 0, .set ['a'] ['x'] 60), (1, 1, .set ['b'] ['y'] (2 ^ 1024)), (2, 2, .get ['a'])]

/-- The call that raises leaves the cache without the first key, although no other one was set. -/
theorem not_lruRun_hugeTtl :
    ((InMemoryLLMCache.create 1).steps hugeTtl).map LlmStep.reply =
        [.returned none, .raised, .returned none] ∧
      ¬ LruRun 1 ((InMemoryLLMCache.create 1).steps hugeTtl) := by
  have hreplies : ((InMemoryLLMCache.create 1).steps hugeTtl).map LlmStep.reply =
      [.returned none, .raised, .returned none] := by decide +kernel
  refine ⟨hreplies, fun h => ?_⟩
  have hmem : LlmReply.raised ∈ ((InMemoryLLMCache.create 1).steps hugeTtl).map LlmStep.reply := by
    rw [hreplies]
    decide
  obtain ⟨s, hs, hraised⟩ := List.mem_map.mp hmem
  exact h.returns s hs hraised

end AgoraEtl
