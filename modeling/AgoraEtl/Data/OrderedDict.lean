import Mathlib.Data.List.Nodup
import Mathlib.Data.List.Sort
import Mathlib.Data.Prod.Lex
import Mathlib.Tactic.Common

/-!
# Dictionaries in insertion order

A dictionary is the list of its entries in the order in which their keys were first set, with the
proof that no key is there twice. Setting a key that is there replaces the value and keeps the place.
-/

variable {κ ν μ : Type*}

/-- Entries with distinct keys, in insertion order. -/
structure OrderedDict (κ ν : Type*) where
  entries : List (κ × ν)
  nodup : (entries.map Prod.fst).Nodup
  deriving DecidableEq

namespace OrderedDict

def empty : OrderedDict κ ν := ⟨[], List.nodup_nil⟩

/-- The empty dictionary has no entries. -/
@[simp]
theorem entries_empty : (empty : OrderedDict κ ν).entries = [] := rfl

def keys (d : OrderedDict κ ν) : List κ := d.entries.map Prod.fst

variable [DecidableEq κ]

def get? (d : OrderedDict κ ν) (key : κ) : Option ν := d.entries.lookup key

/-- The first entry is looked at first. -/
theorem lookup_cons_eq_ite (entries : List (κ × ν)) (first key : κ) (value : ν) :
    ((first, value) :: entries).lookup key =
      if key = first then some value else entries.lookup key := by
  by_cases hkey : key = first
  · rw [if_pos hkey, hkey, List.lookup_cons_self]
  · have hbeq : (key == first) = false := beq_eq_false_iff_ne.mpr hkey
    rw [if_neg hkey, List.lookup_cons, hbeq]

/-- The entries with the key set. -/
def setEntry : List (κ × ν) → κ → ν → List (κ × ν)
  | [], key, value => [(key, value)]
  | (key', value') :: entries, key, value =>
    if key' = key then (key', value) :: entries else (key', value') :: setEntry entries key value

/-- Setting a key adds it. -/
theorem mem_keys_setEntry (entries : List (κ × ν)) (key : κ) (value : ν) (key' : κ) :
    key' ∈ (setEntry entries key value).map Prod.fst ↔
      key' = key ∨ key' ∈ entries.map Prod.fst := by
  induction entries with
  | nil => simp [setEntry]
  | cons entry entries ih =>
    obtain ⟨first, old⟩ := entry
    rw [setEntry]
    split
    next hsame =>
      subst hsame
      simp
    next hne =>
      rw [List.map_cons, List.mem_cons, ih, List.map_cons, List.mem_cons]
      tauto

/-- No key is set twice. -/
theorem nodup_setEntry {entries : List (κ × ν)} (h : (entries.map Prod.fst).Nodup) (key : κ)
    (value : ν) : ((setEntry entries key value).map Prod.fst).Nodup := by
  induction entries with
  | nil => simp [setEntry]
  | cons entry entries ih =>
    obtain ⟨first, old⟩ := entry
    rw [List.map_cons, List.nodup_cons] at h
    rw [setEntry]
    split
    next hsame => simpa using h
    next hne =>
      rw [List.map_cons, List.nodup_cons, mem_keys_setEntry]
      refine ⟨?_, ih h.2⟩
      rintro (hfirst | hmem)
      · exact hne hfirst
      · exact h.1 hmem

/-- The key has the value that was set, and the others what they had. -/
theorem lookup_setEntry (entries : List (κ × ν)) (key : κ) (value : ν) (key' : κ) :
    (setEntry entries key value).lookup key' =
      if key' = key then some value else entries.lookup key' := by
  induction entries with
  | nil => exact lookup_cons_eq_ite [] key key' value
  | cons entry entries ih =>
    obtain ⟨first, old⟩ := entry
    rw [setEntry]
    split
    next hsame =>
      subst hsame
      rw [lookup_cons_eq_ite, lookup_cons_eq_ite]
      split <;> rfl
    next hne =>
      rw [lookup_cons_eq_ite, lookup_cons_eq_ite, ih]
      by_cases hkey : key' = first
      · subst hkey
        rw [if_pos rfl, if_neg hne, if_pos rfl]
      · rw [if_neg hkey, if_neg hkey]

/-- `d[key] = value`. -/
def set (d : OrderedDict κ ν) (key : κ) (value : ν) : OrderedDict κ ν :=
  ⟨setEntry d.entries key value, nodup_setEntry d.nodup key value⟩

/-- The dictionary with more entries set, in order. -/
def update (d : OrderedDict κ ν) (entries : List (κ × ν)) : OrderedDict κ ν :=
  entries.foldl (fun d entry => d.set entry.1 entry.2) d

/-- `dict(entries)`. -/
def ofEntries (entries : List (κ × ν)) : OrderedDict κ ν := empty.update entries

/-- The entries whose keys are kept. -/
def filterKeys (d : OrderedDict κ ν) (keep : κ → Bool) : OrderedDict κ ν :=
  ⟨d.entries.filter fun entry => keep entry.1, d.nodup.sublist (List.filter_sublist.map Prod.fst)⟩

/-- The entries that are kept. -/
def filter (d : OrderedDict κ ν) (keep : κ × ν → Bool) : OrderedDict κ ν :=
  ⟨d.entries.filter keep, d.nodup.sublist (List.filter_sublist.map Prod.fst)⟩

/-- The dictionary with other values under the same keys. -/
def map (d : OrderedDict κ ν) (f : ν → μ) : OrderedDict κ μ :=
  ⟨d.entries.map fun entry => (entry.1, f entry.2), by simpa [Function.comp_def] using d.nodup⟩

/-- The empty dictionary has nothing under any key. -/
@[simp]
theorem get?_empty (key : κ) : (empty : OrderedDict κ ν).get? key = none := rfl

/-- The key has the value that was set, and the others what they had. -/
theorem get?_set (d : OrderedDict κ ν) (key : κ) (value : ν) (key' : κ) :
    (d.set key value).get? key' = if key' = key then some value else d.get? key' :=
  lookup_setEntry d.entries key value key'

/-- The key has the value that was set. -/
@[simp]
theorem get?_set_self (d : OrderedDict κ ν) (key : κ) (value : ν) :
    (d.set key value).get? key = some value := by
  rw [get?_set, if_pos rfl]

/-- Other keys keep what they had. -/
theorem get?_set_of_ne (d : OrderedDict κ ν) {key key' : κ} (value : ν) (h : key' ≠ key) :
    (d.set key value).get? key' = d.get? key' := by
  rw [get?_set, if_neg h]

/-- Setting a key adds it. -/
theorem mem_keys_set {d : OrderedDict κ ν} {key : κ} {value : ν} {key' : κ} :
    key' ∈ (d.set key value).keys ↔ key' = key ∨ key' ∈ d.keys :=
  mem_keys_setEntry d.entries key value key'

/-- There is nothing under a key that is not in the dictionary. -/
theorem get?_eq_none_iff {d : OrderedDict κ ν} {key : κ} : d.get? key = none ↔ key ∉ d.keys := by
  unfold get? keys
  rw [List.lookup_eq_none_iff, List.mem_map]
  constructor
  · rintro h ⟨entry, hmem, rfl⟩
    simpa using h entry hmem
  · intro h entry hmem
    rw [bne_iff_ne]
    rintro rfl
    exact h ⟨entry, hmem, rfl⟩

/-- Keys are distinct, so an entry is what is found under its key. -/
theorem mem_entries_iff {d : OrderedDict κ ν} {key : κ} {value : ν} :
    (key, value) ∈ d.entries ↔ d.get? key = some value := by
  obtain ⟨entries, hnodup⟩ := d
  unfold get?
  dsimp only
  induction entries with
  | nil => simp
  | cons entry entries ih =>
    obtain ⟨first, old⟩ := entry
    rw [List.map_cons, List.nodup_cons] at hnodup
    rw [List.mem_cons, lookup_cons_eq_ite, ih hnodup.2]
    by_cases hkey : key = first
    · subst hkey
      have hlater : entries.lookup key ≠ some value := by
        intro hfound
        have hmem : (key, value) ∈ entries := (ih hnodup.2).mpr hfound
        exact hnodup.1 (List.mem_map.mpr ⟨(key, value), hmem, rfl⟩)
      rw [if_pos rfl, or_iff_left hlater, Prod.mk.injEq, Option.some.injEq]
      exact ⟨fun h => h.2.symm, fun h => ⟨rfl, h.symm⟩⟩
    · rw [if_neg hkey, or_iff_right fun h => hkey (Prod.mk.inj h).1]

/-- A new key comes last. -/
theorem entries_set_of_not_mem {d : OrderedDict κ ν} {key : κ} (h : key ∉ d.keys) (value : ν) :
    (d.set key value).entries = d.entries ++ [(key, value)] := by
  obtain ⟨entries, hnodup⟩ := d
  unfold keys at h
  dsimp only [set] at h ⊢
  clear hnodup
  induction entries with
  | nil => rfl
  | cons entry entries ih =>
    obtain ⟨first, old⟩ := entry
    rw [List.map_cons, List.mem_cons, not_or] at h
    rw [setEntry, if_neg (fun hsame => h.1 hsame.symm), ih h.2, List.cons_append]

/-- New and distinct keys come last, in order. -/
theorem entries_update_of_nodup {d : OrderedDict κ ν} {entries : List (κ × ν)}
    (h : ((d.entries ++ entries).map Prod.fst).Nodup) :
    (d.update entries).entries = d.entries ++ entries := by
  induction entries generalizing d with
  | nil => rw [update, List.foldl_nil, List.append_nil]
  | cons entry entries ih =>
    obtain ⟨key, value⟩ := entry
    have hkey : key ∉ d.keys := by
      intro hmem
      rw [List.map_append, List.map_cons, List.nodup_append] at h
      exact h.2.2 key hmem key List.mem_cons_self rfl
    have hset : (d.set key value).entries = d.entries ++ [(key, value)] :=
      entries_set_of_not_mem hkey value
    have hrest := ih (d := d.set key value) (by rwa [hset, List.append_assoc])
    rw [hset, List.append_assoc] at hrest
    exact hrest

/-- A dictionary is that of its entries. -/
theorem ofEntries_entries (d : OrderedDict κ ν) : ofEntries d.entries = d := by
  obtain ⟨entries, hnodup⟩ := d
  have hentries : (ofEntries entries).entries = entries := entries_update_of_nodup hnodup
  generalize ofEntries entries = d' at hentries
  obtain ⟨entries', hnodup'⟩ := d'
  obtain rfl : entries' = entries := hentries
  rfl

/-- Without entries, nothing is found. -/
theorem entries_eq_nil_iff {d : OrderedDict κ ν} : d.entries = [] ↔ ∀ key, d.get? key = none := by
  constructor
  · intro h key
    rw [get?, h, List.lookup_nil]
  · intro h
    rw [List.eq_nil_iff_forall_not_mem]
    rintro ⟨key, value⟩ hmem
    rw [mem_entries_iff, h key] at hmem
    exact absurd hmem nofun

/-- Only keys that are kept are found. -/
theorem get?_filterKeys (d : OrderedDict κ ν) (keep : κ → Bool) (key : κ) :
    (d.filterKeys keep).get? key = if keep key then d.get? key else none := by
  split
  next hkeep =>
    rcases hfound : d.get? key with _ | value
    · rw [get?_eq_none_iff] at hfound ⊢
      exact fun hmem => hfound ((List.filter_sublist.map Prod.fst).subset hmem)
    · rw [← mem_entries_iff] at hfound ⊢
      exact List.mem_filter.mpr ⟨hfound, hkeep⟩
  next hdrop =>
    rw [get?_eq_none_iff]
    intro hmem
    obtain ⟨entry, hentry, rfl⟩ := List.mem_map.mp hmem
    exact hdrop (List.mem_filter.mp hentry).2

/-- Only entries that are kept are found. -/
theorem get?_filter (d : OrderedDict κ ν) (keep : κ × ν → Bool) (key : κ) :
    (d.filter keep).get? key = (d.get? key).filter fun value => keep (key, value) := by
  refine Option.ext fun value => ?_
  rw [← mem_entries_iff, Option.filter_eq_some_iff, ← mem_entries_iff]
  exact List.mem_filter

/-! ### Values that are computed from their keys -/

/-- The dictionary with values that are computed from the keys and the old ones. -/
def mapWithKey (d : OrderedDict κ ν) (f : κ → ν → μ) : OrderedDict κ μ :=
  ⟨d.entries.map fun entry => (entry.1, f entry.1 entry.2), by
    simpa [Function.comp_def] using d.nodup⟩

/-- Values may be changed before or after a key is set. -/
theorem setEntry_map (f : κ → ν → μ) (entries : List (κ × ν)) (key : κ) (value : ν) :
    setEntry (entries.map fun entry => (entry.1, f entry.1 entry.2)) key (f key value) =
      (setEntry entries key value).map fun entry => (entry.1, f entry.1 entry.2) := by
  induction entries with
  | nil => rfl
  | cons entry entries ih =>
    obtain ⟨first, old⟩ := entry
    rw [List.map_cons, setEntry, setEntry]
    split
    next hsame =>
      subst hsame
      rfl
    next hne => rw [List.map_cons, ih]

/-- Computing the values and setting an entry commute. -/
theorem mapWithKey_set (d : OrderedDict κ ν) (f : κ → ν → μ) (key : κ) (value : ν) :
    (d.mapWithKey f).set key (f key value) = (d.set key value).mapWithKey f := by
  unfold mapWithKey set
  congr 1
  exact setEntry_map f d.entries key value

/-- The values are changed under their keys. -/
theorem get?_mapWithKey (d : OrderedDict κ ν) (f : κ → ν → μ) (key : κ) :
    (d.mapWithKey f).get? key = (d.get? key).map (f key) := by
  refine Option.ext fun value => ?_
  rw [← mem_entries_iff, Option.map_eq_some_iff]
  constructor
  · intro h
    obtain ⟨⟨key', old⟩, hmem, heq⟩ := List.mem_map.mp h
    obtain ⟨rfl, rfl⟩ := Prod.mk.inj heq
    exact ⟨old, mem_entries_iff.mp hmem, rfl⟩
  · rintro ⟨old, hold, rfl⟩
    exact List.mem_map.mpr ⟨(key, old), mem_entries_iff.mpr hold, rfl⟩

/-- Dictionaries of the same distinct keys are the same if the values are. -/
theorem ofEntries_map_eq_iff {α : Type*} {l : List α} {key : α → κ} (h : (l.map key).Nodup)
    {f g : α → ν} :
    ofEntries (l.map fun a => (key a, f a)) = ofEntries (l.map fun a => (key a, g a)) ↔
      ∀ a ∈ l, f a = g a := by
  have hentries : ∀ f : α → ν, (ofEntries (l.map fun a => (key a, f a))).entries =
      l.map fun a => (key a, f a) :=
    fun f => (entries_update_of_nodup (by simpa [Function.comp_def] using h)).trans
      (List.nil_append _)
  constructor
  · intro heq a ha
    have hmap := congrArg entries heq
    rw [hentries, hentries, List.map_inj_left] at hmap
    exact (Prod.mk.inj (hmap a ha)).2
  · intro heq
    rw [List.map_congr_left fun a ha => by rw [heq a ha]]

/-- The value that is set last stays. -/
theorem setEntry_setEntry (entries : List (κ × ν)) (key : κ) (old value : ν) :
    setEntry (setEntry entries key old) key value = setEntry entries key value := by
  induction entries with
  | nil => simp [setEntry]
  | cons entry entries ih =>
    obtain ⟨first, value'⟩ := entry
    rw [setEntry, setEntry]
    split
    next hsame => rw [setEntry, if_pos hsame]
    next hne => rw [setEntry, if_neg hne, ih]

/-- An entry is set in its place. -/
theorem setEntry_append_cons {entries : List (κ × ν)} {key : κ}
    (h : key ∉ entries.map Prod.fst) (old value : ν) (entries' : List (κ × ν)) :
    setEntry (entries ++ (key, old) :: entries') key value =
      entries ++ (key, value) :: entries' := by
  induction entries with
  | nil => rw [List.nil_append, List.nil_append, setEntry, if_pos rfl]
  | cons entry entries ih =>
    obtain ⟨first, value'⟩ := entry
    rw [List.map_cons, List.mem_cons, not_or] at h
    rw [List.cons_append, setEntry, if_neg fun hsame => h.1 hsame.symm, ih h.2, List.cons_append]

/-- What is in a dictionary of entries is one of them. -/
theorem mem_of_mem_update {d : OrderedDict κ ν} {entries : List (κ × ν)} {entry : κ × ν}
    (h : entry ∈ (d.update entries).entries) : entry ∈ d.entries ∨ entry ∈ entries := by
  induction entries generalizing d with
  | nil => exact .inl h
  | cons first entries ih =>
    rcases ih (d := d.set first.1 first.2) h with hset | hlater
    · rw [mem_entries_iff, get?_set] at hset
      split at hset
      next hkey =>
        refine .inr (List.mem_cons.mpr (.inl ?_))
        exact Prod.ext hkey (Option.some.inj hset).symm
      next hne => exact .inl (mem_entries_iff.mpr hset)
    · exact .inr (List.mem_cons_of_mem first hlater)

/-! ### Sorted items -/

omit [DecidableEq κ] in
/-- No entry is there twice. -/
theorem nodup_entries (d : OrderedDict κ ν) : d.entries.Nodup := d.nodup.of_map Prod.fst

/-- Dictionaries with the same values have the same entries up to their order. -/
theorem perm_entries_iff {d d' : OrderedDict κ ν} :
    d.entries.Perm d'.entries ↔ ∀ key, d.get? key = d'.get? key := by
  rw [List.perm_ext_iff_of_nodup d.nodup_entries d'.nodup_entries]
  constructor
  · intro h key
    exact Option.ext fun value => by rw [← mem_entries_iff, h, mem_entries_iff]
  · rintro h ⟨key, value⟩
    rw [mem_entries_iff, h key, mem_entries_iff]

section Sorted

variable {κ ν : Type*} [LinearOrder κ] [LinearOrder ν]

/-- `sorted(d.items())`. -/
def sortedItems (d : OrderedDict κ ν) : List (κ × ν) :=
  d.entries.insertionSort fun a b => toLex a ≤ toLex b

/-- Only the empty dictionary has no items. -/
theorem sortedItems_eq_nil_iff {d : OrderedDict κ ν} : d.sortedItems = [] ↔ d.entries = [] := by
  have hlength := (List.perm_insertionSort (fun a b => toLex a ≤ toLex b) d.entries).length_eq
  rw [← List.length_eq_zero_iff, sortedItems, hlength, List.length_eq_zero_iff]

/-- The sorted items tell what is found under every key. -/
theorem sortedItems_eq_iff [DecidableEq κ] {d d' : OrderedDict κ ν} :
    d.sortedItems = d'.sortedItems ↔ ∀ key, d.get? key = d'.get? key := by
  have htotal : Std.Total fun a b : κ × ν => toLex a ≤ toLex b :=
    ⟨fun a b => le_total (toLex a) (toLex b)⟩
  have htrans : IsTrans (κ × ν) fun a b => toLex a ≤ toLex b := ⟨fun _ _ _ => le_trans⟩
  have hantisymm : Std.Antisymm fun a b : κ × ν => toLex a ≤ toLex b :=
    ⟨fun _ _ hle hge => toLex_inj.mp (le_antisymm hle hge)⟩
  have hsorted : ∀ d : OrderedDict κ ν, d.sortedItems.Pairwise fun a b => toLex a ≤ toLex b :=
    fun d => List.pairwise_insertionSort _ d.entries
  have hperm : ∀ d : OrderedDict κ ν, d.sortedItems.Perm d.entries :=
    fun d => List.perm_insertionSort _ d.entries
  rw [← perm_entries_iff]
  constructor
  · intro h
    exact ((hperm d).symm.trans (h ▸ List.Perm.refl _)).trans (hperm d')
  · intro h
    exact (((hperm d).trans h).trans (hperm d').symm).eq_of_pairwise' (hsorted d) (hsorted d')

end Sorted

end OrderedDict
