import AgoraEtl.Data.Like
import AgoraEtl.Data.OrderedDict
import Mathlib.Order.Defs.LinearOrder

/-!
# State backends

Both backends store values with an optional expiry time under text keys and drop expired values
lazily.  The SQLite backend looks for the keys with a given beginning by `LIKE`, which does not
distinguish the case of ASCII letters.

`replies_eq_iff` says that two fresh backends give the same replies to a sequence of operations exactly
if no operation on a beginning meets a key that only begins like it up to case.
-/

namespace AgoraEtl

/-- A text, as the list of its characters. -/
abbrev Text : Type := List Char

/-- A stored value plus optional expiration metadata. -/
structure StoredValue (V τ : Type) : Type where
  value : V
  expiresAt : Option τ
  deriving DecidableEq

/-- `json.dumps` and `json.loads` on representable values. -/
structure JsonCodec (V : Type) : Type where
  dumps : V → Text
  loads : Text → V
  loads_dumps : ∀ v, loads (dumps v) = v

/-- An operation of a `StateBackend`. -/
inductive StateOp (V τ : Type) : Type where
  | get (key : Text)
  | set (key : Text) (value : V) (expiresAt : Option τ)
  | setIfAbsent (key : Text) (value : V) (expiresAt : Option τ)
  | delete (key : Text)
  | countPrefix (start : Text)
  | deletePrefix (start : Text)

/-- What an operation returns. -/
inductive Reply (V τ : Type) : Type where
  | found (value : Option (StoredValue V τ))
  | nothing
  | stored (new : Bool)
  | count (n : ℕ)
  deriving DecidableEq

variable {V τ : Type} [LinearOrder τ]

/-- A value with this expiry time has expired. -/
def expired (now : τ) (expiresAt : Option τ) : Bool := expiresAt.any fun t => decide (t ≤ now)

/-! ## The backends -/

/-- Single-process in-memory state backend. -/
structure MemoryBackend (V τ : Type) : Type where
  values : OrderedDict Text (StoredValue V τ)

namespace MemoryBackend

def empty : MemoryBackend V τ := ⟨.empty⟩

/-- `self._values.pop(key, None)` for all keys that are not kept. -/
def keepKeys (m : MemoryBackend V τ) (keep : Text → Bool) : MemoryBackend V τ :=
  ⟨m.values.filterKeys keep⟩

def get (m : MemoryBackend V τ) (now : τ) (key : Text) :
    Option (StoredValue V τ) × MemoryBackend V τ :=
  match m.values.get? key with
  | none => (none, m)
  | some entry =>
    if expired now entry.expiresAt then (none, m.keepKeys fun k => decide (k ≠ key))
    else (some entry, m)

def set (m : MemoryBackend V τ) (key : Text) (value : V) (expiresAt : Option τ) :
    MemoryBackend V τ :=
  ⟨m.values.set key ⟨value, expiresAt⟩⟩

def setIfAbsent (m : MemoryBackend V τ) (now : τ) (key : Text) (value : V) (expiresAt : Option τ) :
    Bool × MemoryBackend V τ :=
  match m.get now key with
  | (some _, m') => (false, m')
  | (none, m') => (true, m'.set key value expiresAt)

def delete (m : MemoryBackend V τ) (key : Text) : MemoryBackend V τ :=
  m.keepKeys fun k => decide (k ≠ key)

/-- The keys whose values have expired. -/
def expiredKeys (m : MemoryBackend V τ) (now : τ) : List Text :=
  (m.values.entries.filter fun entry => expired now entry.2.expiresAt).map Prod.fst

def countPrefix (m : MemoryBackend V τ) (now : τ) (start : Text) : ℕ × MemoryBackend V τ :=
  (m.values.entries.countP fun entry =>
      !expired now entry.2.expiresAt && start.isPrefixOf entry.1,
    m.keepKeys fun k => decide (k ∉ m.expiredKeys now))

def deletePrefix (m : MemoryBackend V τ) (start : Text) : ℕ × MemoryBackend V τ :=
  let keys := m.values.keys.filter fun key => start.isPrefixOf key
  (keys.length, m.keepKeys fun k => decide (k ∉ keys))

/-- One operation, at the given clock reading. -/
def step (m : MemoryBackend V τ) (now : τ) : StateOp V τ → Reply V τ × MemoryBackend V τ
  | .get key => ((.found (m.get now key).1), (m.get now key).2)
  | .set key value expiresAt => (.nothing, m.set key value expiresAt)
  | .setIfAbsent key value expiresAt =>
    (.stored (m.setIfAbsent now key value expiresAt).1, (m.setIfAbsent now key value expiresAt).2)
  | .delete key => (.nothing, m.delete key)
  | .countPrefix start => (.count (m.countPrefix now start).1, (m.countPrefix now start).2)
  | .deletePrefix start => (.count (m.deletePrefix start).1, (m.deletePrefix start).2)

end MemoryBackend

/-- SQLite-backed state backend: the rows of `state_store` by their primary key. -/
structure SQLiteBackend (τ : Type) : Type where
  rows : OrderedDict Text (Text × Option τ)

namespace SQLiteBackend

variable (json : JsonCodec V)

def empty : SQLiteBackend τ := ⟨.empty⟩

/-- `DELETE FROM state_store WHERE ...`, with the condition that keeps a row. -/
def keepRows (t : SQLiteBackend τ) (keep : Text × (Text × Option τ) → Bool) : SQLiteBackend τ :=
  ⟨t.rows.filter keep⟩

/-- `INSERT OR REPLACE INTO state_store`. -/
def insertOrReplace (t : SQLiteBackend τ) (key : Text) (row : Text × Option τ) : SQLiteBackend τ :=
  ⟨(t.rows.filterKeys fun k => decide (k ≠ key)).set key row⟩

/-- `INSERT OR IGNORE INTO state_store`, with whether a row was inserted. -/
def insertOrIgnore (t : SQLiteBackend τ) (key : Text) (row : Text × Option τ) :
    Bool × SQLiteBackend τ :=
  match t.rows.get? key with
  | some _ => (false, t)
  | none => (true, ⟨t.rows.set key row⟩)

def get (t : SQLiteBackend τ) (now : τ) (key : Text) : Option (StoredValue V τ) × SQLiteBackend τ :=
  match t.rows.get? key with
  | none => (none, t)
  | some (rawValue, expiresAt) =>
    if expired now expiresAt then (none, t.keepRows fun row => decide (row.1 ≠ key))
    else (some ⟨json.loads rawValue, expiresAt⟩, t)

def set (t : SQLiteBackend τ) (key : Text) (value : V) (expiresAt : Option τ) : SQLiteBackend τ :=
  t.insertOrReplace key (json.dumps value, expiresAt)

def setIfAbsent (t : SQLiteBackend τ) (now : τ) (key : Text) (value : V) (expiresAt : Option τ) :
    Bool × SQLiteBackend τ :=
  (t.keepRows fun row => !(decide (row.1 = key) && expired now row.2.2)).insertOrIgnore key
    (json.dumps value, expiresAt)

def delete (t : SQLiteBackend τ) (key : Text) : SQLiteBackend τ :=
  t.keepRows fun row => decide (row.1 ≠ key)

def countPrefix (t : SQLiteBackend τ) (now : τ) (start : Text) : ℕ × SQLiteBackend τ :=
  let t' := t.keepRows fun row => !expired now row.2.2
  (t'.rows.entries.countP fun row => like '\\' (escapeLike start ++ ['%']) row.1, t')

def deletePrefix (t : SQLiteBackend τ) (start : Text) : ℕ × SQLiteBackend τ :=
  (t.rows.entries.countP fun row => like '\\' (escapeLike start ++ ['%']) row.1,
    t.keepRows fun row => !like '\\' (escapeLike start ++ ['%']) row.1)

/-- One operation, at the given clock reading. -/
def step (t : SQLiteBackend τ) (now : τ) : StateOp V τ → Reply V τ × SQLiteBackend τ
  | .get key => (.found (t.get json now key).1, (t.get json now key).2)
  | .set key value expiresAt => (.nothing, t.set json key value expiresAt)
  | .setIfAbsent key value expiresAt =>
    (.stored (t.setIfAbsent json now key value expiresAt).1,
      (t.setIfAbsent json now key value expiresAt).2)
  | .delete key => (.nothing, t.delete key)
  | .countPrefix start => (.count (t.countPrefix now start).1, (t.countPrefix now start).2)
  | .deletePrefix start => (.count (t.deletePrefix start).1, (t.deletePrefix start).2)

end SQLiteBackend

/-! ## The table represents the dictionary -/

/-- The row of an entry. -/
def StoredValue.row (json : JsonCodec V) (entry : StoredValue V τ) : Text × Option τ :=
  (json.dumps entry.value, entry.expiresAt)

/-- The table holds the rows of the entries of the dictionary. -/
def Represents (json : JsonCodec V) (m : MemoryBackend V τ) (t : SQLiteBackend τ) : Prop :=
  ∀ key, t.rows.get? key = (m.values.get? key).map (StoredValue.row json)

/-- An operation on a beginning meets no key that only begins like it up to case: among the keys that
have not expired for a count, and among all keys that are still there for a deletion. -/
def StateOp.Clear (m : MemoryBackend V τ) (now : τ) : StateOp V τ → Prop
  | .countPrefix start => ∀ key entry, m.values.get? key = some entry →
      expired now entry.expiresAt = false → FoldedPrefix start key → start <+: key
  | .deletePrefix start => ∀ key entry, m.values.get? key = some entry →
      FoldedPrefix start key → start <+: key
  | _ => True

/-- If one condition implies the other, the counts are equal exactly if they agree on the list. -/
theorem countP_eq_iff_of_imp {α : Type} {p q : α → Bool} {l : List α}
    (h : ∀ a ∈ l, p a = true → q a = true) :
    l.countP p = l.countP q ↔ ∀ a ∈ l, q a = true → p a = true := by
  induction l with
  | nil => exact ⟨fun _ => nofun, fun _ => rfl⟩
  | cons a l ih =>
    rw [List.forall_mem_cons] at h ⊢
    have hle : l.countP p ≤ l.countP q := List.countP_mono_left h.2
    rw [List.countP_cons, List.countP_cons, ← ih h.2]
    by_cases hp : p a = true
    · rw [if_pos hp, if_pos (h.1 hp), Nat.add_right_cancel_iff]
      exact ⟨fun heq => ⟨fun _ => hp, heq⟩, And.right⟩
    · by_cases hq : q a = true
      · rw [if_neg hp, if_pos hq]
        exact ⟨fun heq => by omega, fun hall => absurd (hall.1 hq) hp⟩
      · rw [if_neg hp, if_neg hq, Nat.add_right_cancel_iff]
        exact ⟨fun heq => ⟨fun hq' => absurd hq' hq, heq⟩, And.right⟩

section Representation

variable {json : JsonCodec V} {m : MemoryBackend V τ} {t : SQLiteBackend τ} {now : τ}

omit [LinearOrder τ] in
theorem Represents.perm (h : Represents json m t) :
    t.rows.entries.Perm (m.values.entries.map fun entry => (entry.1, entry.2.row json)) := by
  have hkeys : ((m.values.entries.map fun entry => (entry.1, entry.2.row json)).map Prod.fst) =
      m.values.entries.map Prod.fst := by
    rw [List.map_map]
    rfl
  have hnodup : (m.values.entries.map fun entry => (entry.1, entry.2.row json)).Nodup := by
    refine List.Nodup.of_map Prod.fst ?_
    rw [hkeys]
    exact m.values.nodup
  refine (List.perm_ext_iff_of_nodup (List.Nodup.of_map Prod.fst t.rows.nodup) hnodup).mpr ?_
  rintro ⟨key, row⟩
  rw [OrderedDict.mem_entries_iff, h key, List.mem_map, Option.map_eq_some_iff]
  constructor
  · rintro ⟨entry, hentry, rfl⟩
    exact ⟨(key, entry), OrderedDict.mem_entries_iff.mpr hentry, rfl⟩
  · rintro ⟨⟨key', entry⟩, hentry, hrow⟩
    cases hrow
    exact ⟨entry, OrderedDict.mem_entries_iff.mp hentry, rfl⟩

omit [LinearOrder τ] in
theorem Represents.countP (h : Represents json m t) (p : Text → Option τ → Bool) :
    (t.rows.entries.countP fun row => p row.1 row.2.2) =
      m.values.entries.countP fun entry => p entry.1 entry.2.expiresAt := by
  rw [h.perm.countP_eq, List.countP_map]
  rfl

omit [LinearOrder τ] in
theorem Represents.set (h : Represents json m t) (key : Text) (value : V) (expiresAt : Option τ) :
    Represents json (m.set key value expiresAt)
      (t.insertOrReplace key (json.dumps value, expiresAt)) := by
  intro key'
  unfold MemoryBackend.set SQLiteBackend.insertOrReplace
  rw [OrderedDict.get?_set, OrderedDict.get?_set, OrderedDict.get?_filterKeys]
  by_cases hkey : key' = key
  · rw [if_pos hkey, if_pos hkey]
    rfl
  · rw [if_neg hkey, if_neg hkey, if_pos (decide_eq_true hkey)]
    exact h key'

omit [LinearOrder τ] in
/-- Both backends keep the same keys. -/
theorem Represents.keep (h : Represents json m t) {keepKey : Text → Bool}
    {keepRow : Text × (Text × Option τ) → Bool}
    (hkeep : ∀ key entry, m.values.get? key = some entry →
      keepRow (key, entry.row json) = keepKey key) :
    Represents json (m.keepKeys keepKey) (t.keepRows keepRow) := by
  intro key
  unfold MemoryBackend.keepKeys SQLiteBackend.keepRows
  rw [OrderedDict.get?_filter, OrderedDict.get?_filterKeys, h key]
  cases hentry : m.values.get? key with
  | none => split <;> rfl
  | some entry =>
    rw [Option.map_some, Option.filter_some, hkeep key entry hentry]
    split <;> rfl

theorem mem_expiredKeys_iff {key : Text} {entry : StoredValue V τ}
    (hentry : m.values.get? key = some entry) :
    key ∈ m.expiredKeys now ↔ expired now entry.expiresAt = true := by
  unfold MemoryBackend.expiredKeys
  rw [List.mem_map]
  constructor
  · rintro ⟨⟨key', entry'⟩, hmem, rfl⟩
    obtain ⟨hmem, hexpired⟩ := List.mem_filter.mp hmem
    obtain rfl : entry' = entry :=
      Option.some.inj ((OrderedDict.mem_entries_iff.mp hmem).symm.trans hentry)
    exact hexpired
  · intro hexpired
    exact ⟨(key, entry), List.mem_filter.mpr ⟨OrderedDict.mem_entries_iff.mpr hentry, hexpired⟩, rfl⟩

omit [LinearOrder τ] in
/-- Both backends delete the key. -/
theorem Represents.delete (h : Represents json m t) (key : Text) :
    Represents json (m.keepKeys fun k => decide (k ≠ key))
      (t.keepRows fun row => decide (row.1 ≠ key)) :=
  h.keep fun _ _ _ => rfl

/-- Both backends look a key up alike. -/
theorem Represents.get (h : Represents json m t) (key : Text) :
    (m.get now key).1 = (t.get json now key).1 ∧
      Represents json (m.get now key).2 (t.get json now key).2 := by
  unfold MemoryBackend.get SQLiteBackend.get
  rw [h key]
  cases m.values.get? key with
  | none => exact ⟨rfl, h⟩
  | some entry =>
    change (if expired now entry.expiresAt = true then _ else _ : Option _ × _).1 =
        (if expired now entry.expiresAt = true then _ else _ : Option _ × _).1 ∧ Represents json
      (if expired now entry.expiresAt = true then _ else _ : Option _ × _).2
      (if expired now entry.expiresAt = true then _ else _ : Option _ × _).2
    by_cases hexpired : expired now entry.expiresAt = true
    · rw [if_pos hexpired, if_pos hexpired]
      exact ⟨rfl, h.delete key⟩
    · rw [if_neg hexpired, if_neg hexpired]
      refine ⟨?_, h⟩
      change some entry = some ⟨json.loads (json.dumps entry.value), entry.expiresAt⟩
      rw [json.loads_dumps]

/-- Looking a key up leaves the entry it finds under the key, and all other entries. -/
theorem get?_get (m : MemoryBackend V τ) (now : τ) (key : Text) :
    (m.get now key).2.values.get? key = (m.get now key).1 ∧
      ∀ key', key' ≠ key → (m.get now key).2.values.get? key' = m.values.get? key' := by
  unfold MemoryBackend.get MemoryBackend.keepKeys
  cases hentry : m.values.get? key with
  | none => exact ⟨hentry, fun _ _ => rfl⟩
  | some entry =>
    dsimp only
    by_cases hexpired : expired now entry.expiresAt = true
    · rw [if_pos hexpired]
      refine ⟨?_, fun key' hne => ?_⟩
      · rw [OrderedDict.get?_filterKeys, if_neg (by simp)]
      · rw [OrderedDict.get?_filterKeys, if_pos (decide_eq_true hne)]
    · rw [if_neg hexpired]
      exact ⟨hentry, fun _ _ => rfl⟩

/-- `set_if_absent` drops an expired value first. -/
theorem Represents.dropExpired (h : Represents json m t) (now : τ) (key : Text) :
    Represents json (m.get now key).2
      (t.keepRows fun row => !(decide (row.1 = key) && expired now row.2.2)) := by
  intro key'
  unfold SQLiteBackend.keepRows
  rw [OrderedDict.get?_filter, h key']
  obtain ⟨hself, hother⟩ := get?_get m now key
  by_cases hkey : key' = key
  · subst hkey
    rw [hself]
    unfold MemoryBackend.get
    cases m.values.get? key' with
    | none => rfl
    | some entry =>
      rw [Option.map_some, Option.filter_some]
      change (if (!(decide (key' = key') && expired now entry.expiresAt)) = true then _ else _) = _
      cases hexpired : expired now entry.expiresAt with
      | false => simp [hexpired]
      | true => simp [hexpired]
  · rw [hother key' hkey]
    cases m.values.get? key' with
    | none => rfl
    | some entry =>
      rw [Option.map_some, Option.filter_some, decide_eq_false hkey]
      rfl

theorem Represents.setIfAbsent (h : Represents json m t) (key : Text) (value : V)
    (expiresAt : Option τ) :
    (m.setIfAbsent now key value expiresAt).1 = (t.setIfAbsent json now key value expiresAt).1 ∧
      Represents json (m.setIfAbsent now key value expiresAt).2
        (t.setIfAbsent json now key value expiresAt).2 := by
  have hdrop := h.dropExpired now key
  have hself := (get?_get m now key).1
  unfold MemoryBackend.setIfAbsent SQLiteBackend.setIfAbsent SQLiteBackend.insertOrIgnore
  generalize (t.keepRows fun row => !(decide (row.1 = key) && expired now row.2.2)) = t' at hdrop ⊢
  generalize m.get now key = found at hdrop hself ⊢
  obtain ⟨entry, m'⟩ := found
  have hrow := hdrop key
  rw [hself] at hrow
  cases entry with
  | some entry =>
    rw [hrow]
    exact ⟨rfl, hdrop⟩
  | none =>
    rw [hrow]
    refine ⟨rfl, fun key' => ?_⟩
    change (t'.rows.set key _).get? key' = ((m'.values.set key _).get? key').map _
    rw [OrderedDict.get?_set, OrderedDict.get?_set, hdrop key']
    split
    · rfl
    · rfl

omit [LinearOrder τ] in
theorem like_escapeLike_eq (start key : Text) :
    like '\\' (escapeLike start ++ ['%']) key = decide (FoldedPrefix start key) := by
  rw [Bool.eq_iff_iff, like_escaped_iff, decide_eq_true_iff]

/-- The replies to an operation are the same exactly if it is clear. -/
theorem Represents.reply_eq_iff (h : Represents json m t) (op : StateOp V τ) :
    (m.step now op).1 = (t.step json now op).1 ↔ op.Clear m now := by
  cases op with
  | get key => exact iff_of_true (congrArg Reply.found (h.get key).1) trivial
  | set key value expiresAt => exact iff_of_true rfl trivial
  | setIfAbsent key value expiresAt =>
    exact iff_of_true (congrArg Reply.stored (h.setIfAbsent key value expiresAt).1) trivial
  | delete key => exact iff_of_true rfl trivial
  | countPrefix start =>
    unfold MemoryBackend.step SQLiteBackend.step MemoryBackend.countPrefix SQLiteBackend.countPrefix
      SQLiteBackend.keepRows OrderedDict.filter
    simp only [like_escapeLike_eq, List.countP_filter, Reply.count.injEq]
    rw [h.countP fun key expiresAt => decide (FoldedPrefix start key) && !expired now expiresAt,
      countP_eq_iff_of_imp]
    · unfold StateOp.Clear
      constructor
      · intro hall key entry hentry hlive hfolded
        have hboth := hall (key, entry) (OrderedDict.mem_entries_iff.mpr hentry)
          (by simp [hlive, hfolded])
        rw [Bool.and_eq_true, List.isPrefixOf_iff_prefix] at hboth
        exact hboth.2
      · rintro hclear ⟨key, entry⟩ hmem hboth
        rw [Bool.and_eq_true, decide_eq_true_iff, Bool.not_eq_true'] at hboth
        rw [Bool.and_eq_true, List.isPrefixOf_iff_prefix, Bool.not_eq_true']
        exact ⟨hboth.2, hclear key entry (OrderedDict.mem_entries_iff.mp hmem) hboth.2 hboth.1⟩
    · rintro ⟨key, entry⟩ - hboth
      rw [Bool.and_eq_true, List.isPrefixOf_iff_prefix] at hboth
      rw [Bool.and_eq_true, decide_eq_true_iff]
      exact ⟨foldedPrefix_of_isPrefix hboth.2, hboth.1⟩
  | deletePrefix start =>
    have hkeys : (m.values.keys.filter fun key => start.isPrefixOf key).length =
        m.values.entries.countP fun entry => start.isPrefixOf entry.1 := by
      rw [← List.countP_eq_length_filter, OrderedDict.keys, List.countP_map]
      rfl
    unfold MemoryBackend.step SQLiteBackend.step MemoryBackend.deletePrefix SQLiteBackend.deletePrefix
    simp only [like_escapeLike_eq, Reply.count.injEq]
    rw [hkeys, h.countP fun key _ => decide (FoldedPrefix start key), countP_eq_iff_of_imp]
    · unfold StateOp.Clear
      constructor
      · intro hall key entry hentry hfolded
        exact List.isPrefixOf_iff_prefix.mp (hall (key, entry)
          (OrderedDict.mem_entries_iff.mpr hentry) (decide_eq_true hfolded))
      · rintro hclear ⟨key, entry⟩ hmem hfolded
        exact List.isPrefixOf_iff_prefix.mpr (hclear key entry
          (OrderedDict.mem_entries_iff.mp hmem) (of_decide_eq_true hfolded))
    · rintro ⟨key, entry⟩ - hstarts
      exact decide_eq_true (foldedPrefix_of_isPrefix (List.isPrefixOf_iff_prefix.mp hstarts))

/-- After a clear operation the table still represents the dictionary. -/
theorem Represents.step (h : Represents json m t) {op : StateOp V τ} (hclear : op.Clear m now) :
    Represents json (m.step now op).2 (t.step json now op).2 := by
  cases op with
  | get key => exact (h.get key).2
  | set key value expiresAt => exact h.set key value expiresAt
  | setIfAbsent key value expiresAt => exact (h.setIfAbsent key value expiresAt).2
  | delete key => exact h.delete key
  | countPrefix start =>
    refine h.keep fun key entry hentry => ?_
    rw [Bool.eq_iff_iff, decide_eq_true_iff, mem_expiredKeys_iff hentry, Bool.not_eq_true',
      Bool.not_eq_true]
    rfl
  | deletePrefix start =>
    refine h.keep fun key entry hentry => ?_
    have hkey : key ∈ m.values.keys :=
      List.mem_map.mpr ⟨(key, entry), OrderedDict.mem_entries_iff.mpr hentry, rfl⟩
    rw [like_escapeLike_eq, Bool.eq_iff_iff, decide_eq_true_iff, Bool.not_eq_true',
      decide_eq_false_iff_not, List.mem_filter, List.isPrefixOf_iff_prefix, not_iff_not]
    exact ⟨fun hfolded => ⟨hkey, hclear key entry hentry hfolded⟩,
      fun hstarts => foldedPrefix_of_isPrefix hstarts.2⟩

end Representation

/-! ## Sequences of operations -/

/-- The replies of the memory backend to operations at their clock readings. -/
def MemoryBackend.replies (m : MemoryBackend V τ) : List (τ × StateOp V τ) → List (Reply V τ)
  | [] => []
  | (now, op) :: ops => (m.step now op).1 :: (m.step now op).2.replies ops

/-- The replies of the SQLite backend to operations at their clock readings. -/
def SQLiteBackend.replies (json : JsonCodec V) (t : SQLiteBackend τ) :
    List (τ × StateOp V τ) → List (Reply V τ)
  | [] => []
  | (now, op) :: ops => (t.step json now op).1 :: (t.step json now op).2.replies json ops

/-- All operations are clear where they are made. -/
def MemoryBackend.AllClear (m : MemoryBackend V τ) : List (τ × StateOp V τ) → Prop
  | [] => True
  | (now, op) :: ops => op.Clear m now ∧ (m.step now op).2.AllClear ops

/-- The run lemma: the replies are the same exactly if all operations are clear. -/
theorem Represents.replies_eq {json : JsonCodec V} {m : MemoryBackend V τ} {t : SQLiteBackend τ}
    (h : Represents json m t) (ops : List (τ × StateOp V τ)) :
    m.replies ops = t.replies json ops ↔ m.AllClear ops := by
  induction ops generalizing m t with
  | nil => exact iff_of_true rfl trivial
  | cons timed ops ih =>
    obtain ⟨now, op⟩ := timed
    unfold MemoryBackend.replies SQLiteBackend.replies MemoryBackend.AllClear
    rw [List.cons_eq_cons, h.reply_eq_iff]
    exact and_congr_right fun hclear => ih (h.step hclear)

/-- Fresh backends give the same replies to a sequence of operations exactly if no operation on a
beginning meets a key that only begins like it up to the case of ASCII letters. -/
theorem replies_eq_iff (json : JsonCodec V) (ops : List (τ × StateOp V τ)) :
    (MemoryBackend.empty : MemoryBackend V τ).replies ops =
      (SQLiteBackend.empty : SQLiteBackend τ).replies json ops ↔
    (MemoryBackend.empty : MemoryBackend V τ).AllClear ops :=
  Represents.replies_eq (fun _ => rfl) ops

/-- Texts as their own encoding. -/
def textCodec : JsonCodec Text := ⟨id, id, fun _ => rfl⟩

/-- A key in capitals counts for a beginning in small letters in the SQLite backend only. -/
theorem not_replies_eq_capital :
    (MemoryBackend.empty : MemoryBackend Text ℕ).replies
        [(0, .set ['A'] [] none), (0, .countPrefix ['a'])] ≠
      (SQLiteBackend.empty : SQLiteBackend ℕ).replies textCodec
        [(0, .set ['A'] [] none), (0, .countPrefix ['a'])] := by
  decide

end AgoraEtl
