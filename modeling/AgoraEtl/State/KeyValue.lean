import AgoraEtl.Data.Double
import AgoraEtl.State.Backend
import Mathlib.Algebra.Order.Ring.Rat

/-!
# Key-value stores with a lifetime

`TTLKeyValueStore` keeps values under the keys of its namespace in a state backend; a value is there
until its expiry time.  A lifetime that is too large for a float raises before anything is stored.  Here
the backend is the one in memory.
-/

namespace AgoraEtl

/-- What is found in the backend has not expired. -/
theorem MemoryBackend.get_fst {V : Type} (m : MemoryBackend V ℚ) (now : ℚ) (key : Text) :
    (m.get now key).1 = (m.values.get? key).filter fun entry => !expired now entry.expiresAt := by
  unfold MemoryBackend.get
  cases m.values.get? key with
  | none => rfl
  | some entry =>
    rw [Option.filter_some]
    dsimp only
    cases expired now entry.expiresAt <;> rfl

/-- Namespaced key-value store with optional TTL semantics. -/
structure TTLKeyValueStore (V : Type) : Type where
  backend : MemoryBackend V ℚ
  nameSpace : Text
  defaultTtl : Option ℤ

namespace TTLKeyValueStore

variable {V : Type}

/-- `_full_key`. -/
def fullKey (s : TTLKeyValueStore V) (key : Text) : Text := s.nameSpace ++ ':' :: key

def get (s : TTLKeyValueStore V) (now : ℚ) (key : Text) : Option V × TTLKeyValueStore V :=
  ((s.backend.get now (s.fullKey key)).1.map StoredValue.value,
    { s with backend := (s.backend.get now (s.fullKey key)).2 })

/-- The store with a value under a key. -/
def put (s : TTLKeyValueStore V) (key : Text) (value : V) (expiresAt : Option ℚ) : TTLKeyValueStore V :=
  { s with backend := s.backend.set (s.fullKey key) value expiresAt }

/-- A value is stored with its expiry time; `none` is the `OverflowError` of `time.time() + ttl`. -/
def set (s : TTLKeyValueStore V) (now : ℚ) (key : Text) (value : V) (ttl : Option ℤ) :
    Option (TTLKeyValueStore V) :=
  match ttl.or s.defaultTtl with
  | none => some (s.put key value none)
  | some ttl => (Double.addInt now ttl).map fun expiresAt => s.put key value (some expiresAt)

def delete (s : TTLKeyValueStore V) (key : Text) : TTLKeyValueStore V :=
  { s with backend := s.backend.delete (s.fullKey key) }

/-- What the backend has under a key, expired or not. -/
def stored? (s : TTLKeyValueStore V) (key : Text) : Option (StoredValue V ℚ) :=
  s.backend.values.get? (s.fullKey key)

variable {s : TTLKeyValueStore V}

theorem fullKey_injective : Function.Injective s.fullKey := fun _ _ h =>
  (List.cons.inj (List.append_cancel_left h)).2

/-- The value that is found has not expired. -/
theorem get_fst (now : ℚ) (key : Text) :
    (s.get now key).1 =
      ((s.stored? key).filter fun entry => !expired now entry.expiresAt).map StoredValue.value :=
  congrArg (Option.map StoredValue.value) (s.backend.get_fst now (s.fullKey key))

/-- A value that has expired is dropped when it is looked up. -/
theorem stored?_get (now : ℚ) (key key' : Text) :
    (s.get now key).2.stored? key' =
      if key' = key then (s.stored? key).filter fun entry => !expired now entry.expiresAt
      else s.stored? key' := by
  obtain ⟨hself, hother⟩ := get?_get s.backend now (s.fullKey key)
  by_cases hkey : key' = key
  · rw [if_pos hkey, hkey]
    exact hself.trans (s.backend.get_fst now (s.fullKey key))
  · rw [if_neg hkey]
    exact hother _ fun h => hkey (fullKey_injective h)

/-- With a lifetime that is given, the value is stored if the expiry time is a float. -/
theorem set_some (now : ℚ) (key : Text) (value : V) (ttl : ℤ) :
    s.set now key value (some ttl) =
      (Double.addInt now ttl).map fun expiresAt => s.put key value (some expiresAt) := rfl

theorem stored?_put (key : Text) (value : V) (expiresAt : Option ℚ) (key' : Text) :
    (s.put key value expiresAt).stored? key' =
      if key' = key then some ⟨value, expiresAt⟩ else s.stored? key' := by
  by_cases hkey : key' = key
  · rw [if_pos hkey, hkey]
    exact OrderedDict.get?_set_self _ _ _
  · rw [if_neg hkey]
    exact OrderedDict.get?_set_of_ne _ _ fun h => hkey (fullKey_injective h)

theorem stored?_delete (key key' : Text) :
    (s.delete key).stored? key' = if key' = key then none else s.stored? key' := by
  have hdelete := OrderedDict.get?_filterKeys s.backend.values
    (fun k => decide (k ≠ s.fullKey key)) (s.fullKey key')
  by_cases hkey : key' = key
  · rw [if_pos hkey, hkey]
    rw [hkey, if_neg (by simp)] at hdelete
    exact hdelete
  · have hne : s.fullKey key' ≠ s.fullKey key := fun h => hkey (fullKey_injective h)
    rw [if_neg hkey]
    rw [if_pos (decide_eq_true hne)] at hdelete
    exact hdelete

/-! ### The keys of the namespace -/

/-- The backend has no keys outside of the namespace. -/
def Owns (s : TTLKeyValueStore V) : Prop :=
  ∀ k, s.backend.values.get? k ≠ none → ∃ key, k = s.fullKey key

theorem Owns.get (h : s.Owns) (now : ℚ) (key : Text) : (s.get now key).2.Owns := by
  intro k hk
  obtain ⟨hself, hother⟩ := get?_get s.backend now (s.fullKey key)
  by_cases hkey : k = s.fullKey key
  · exact ⟨key, hkey⟩
  · exact h k (hother k hkey ▸ hk)

theorem Owns.put (h : s.Owns) (key : Text) (value : V) (expiresAt : Option ℚ) :
    (s.put key value expiresAt).Owns := by
  intro k hk
  by_cases hkey : k = s.fullKey key
  · exact ⟨key, hkey⟩
  · refine h k fun hnone => hk ?_
    exact (OrderedDict.get?_set_of_ne _ _ hkey).trans hnone

theorem Owns.delete (h : s.Owns) (key : Text) : (s.delete key).Owns := by
  intro k hk
  refine h k fun hnone => hk ?_
  refine (OrderedDict.get?_filterKeys _ _ _).trans ?_
  rw [hnone, ite_self]

/-- There are no more entries than keys under which there is one. -/
theorem Owns.length_le (h : s.Owns) {keys : List Text}
    (hkeys : ∀ key, s.stored? key ≠ none → key ∈ keys) :
    s.backend.values.entries.length ≤ keys.length := by
  have hsubset : s.backend.values.keys ⊆ keys.map s.fullKey := by
    intro k hk
    have hfound : s.backend.values.get? k ≠ none := fun hnone =>
      OrderedDict.get?_eq_none_iff.mp hnone hk
    obtain ⟨key, rfl⟩ := h k hfound
    exact List.mem_map_of_mem (hkeys key hfound)
  have hlength := (List.subperm_of_subset s.backend.values.nodup hsubset).length_le
  rwa [List.length_map, List.length_map] at hlength

end TTLKeyValueStore

end AgoraEtl
