import AgoraEtl.Data.OrderedDict
import Mathlib.Data.List.Induction

/-!
# Trees of dictionaries and lists

`DataTree` is what a document of nested dictionaries and lists is read into.  A tree is laid over another
one by `overlay`: dictionaries that meet are merged key by key, and everything else replaces what it
meets.

What a stack of layers comes to is read off path by path.  A layer claims a path unless following it runs
out of one of its dictionaries; `valueAt_foldl_overlay` says that at each path the stack has the value of
the last layer that claims it.
-/

variable {κ V : Type}

/-- A tree of dictionaries and lists over other values. -/
inductive DataTree (κ V : Type) where
  | leaf (value : V)
  | list (items : List (DataTree κ V))
  | dict (entries : List (κ × DataTree κ V))

namespace DataTree

/-- Induction over the values in lists and dictionaries. -/
@[elab_as_elim]
theorem induction_mem {motive : DataTree κ V → Prop} (leaf : ∀ value, motive (leaf value))
    (list : ∀ items, (∀ item ∈ items, motive item) → motive (list items))
    (dict : ∀ entries, (∀ entry ∈ entries, motive entry.2) → motive (dict entries))
    (t : DataTree κ V) : motive t :=
  DataTree.rec (motive_1 := motive) (motive_2 := fun items => ∀ item ∈ items, motive item)
    (motive_3 := fun entries => ∀ entry ∈ entries, motive entry.2)
    (motive_4 := fun entry => motive entry.2) leaf list dict (by simp)
    (fun _ _ hitem hitems => List.forall_mem_cons.mpr ⟨hitem, hitems⟩) (by simp)
    (fun _ _ hentry hentries => List.forall_mem_cons.mpr ⟨hentry, hentries⟩) (fun _ _ h => h) t

/-! ### Distinct keys -/

mutual

/-- No dictionary of the tree has a key twice. -/
def Wf : DataTree κ V → Prop
  | leaf _ => True
  | list items => WfItems items
  | dict entries => (entries.map Prod.fst).Nodup ∧ WfEntries entries

def WfItems : List (DataTree κ V) → Prop
  | [] => True
  | item :: items => item.Wf ∧ WfItems items

def WfEntries : List (κ × DataTree κ V) → Prop
  | [] => True
  | (_, value) :: entries => value.Wf ∧ WfEntries entries

end

/-- Entries are well formed if each value is. -/
theorem wfEntries_iff {entries : List (κ × DataTree κ V)} :
    WfEntries entries ↔ ∀ entry ∈ entries, entry.2.Wf := by
  induction entries with
  | nil => simp [WfEntries]
  | cons entry entries ih => simp [WfEntries, ih]

section Overlay

variable [DecidableEq κ]

/-- What is found under a key is an entry. -/
theorem mem_of_lookup_eq_some {entries : List (κ × V)} {key : κ} {value : V}
    (h : entries.lookup key = some value) : (key, value) ∈ entries := by
  obtain ⟨front, rest, rfl, -⟩ := List.lookup_eq_some_iff.mp h
  simp

/-- Nothing is found under a key that is not there. -/
theorem lookup_eq_none_of_not_mem {entries : List (κ × V)} {key : κ}
    (h : key ∉ entries.map Prod.fst) : entries.lookup key = none :=
  List.lookup_eq_none_iff.mpr fun _ hentry =>
    bne_iff_ne.mpr fun heq => h (heq ▸ List.mem_map_of_mem hentry)

/-! ### Overlays -/

mutual

/-- The entries with those of another dictionary laid over them, one after the other. -/
def mergeEntries (base : List (κ × DataTree κ V)) :
    List (κ × DataTree κ V) → List (κ × DataTree κ V)
  | [] => base
  | (key, value) :: overlay =>
    mergeEntries (OrderedDict.setEntry base key (mergeInto (base.lookup key) value)) overlay

/-- What becomes of a value where another one may be. -/
def mergeInto (base : Option (DataTree κ V)) : DataTree κ V → DataTree κ V
  | leaf value => leaf value
  | list items => list items
  | dict overlay =>
    match base with
    | some (dict entries) => dict (mergeEntries entries overlay)
    | _ => dict overlay

end

/-- A tree laid over another one. -/
def overlay (base upper : DataTree κ V) : DataTree κ V := mergeInto (some base) upper

/-- Under each key is what the overlay has there, laid over what was there before. -/
theorem lookup_mergeEntries {overlay : List (κ × DataTree κ V)}
    (hnodup : (overlay.map Prod.fst).Nodup) (base : List (κ × DataTree κ V)) (key : κ) :
    (mergeEntries base overlay).lookup key =
      (overlay.lookup key).elim (base.lookup key) fun value =>
        some (mergeInto (base.lookup key) value) := by
  induction overlay generalizing base with
  | nil => rfl
  | cons entry overlay ih =>
    obtain ⟨first, value⟩ := entry
    rw [List.map_cons, List.nodup_cons] at hnodup
    rw [mergeEntries, ih hnodup.2, OrderedDict.lookup_setEntry, OrderedDict.lookup_cons_eq_ite]
    by_cases hkey : key = first
    · subst hkey
      rw [lookup_eq_none_of_not_mem hnodup.1, if_pos rfl, if_pos rfl]
      rfl
    · rw [if_neg hkey, if_neg hkey]

/-! ### Following a path -/

/-- The value that is reached by the path.  A dictionary shows as an empty one: what it has under its keys
is reached by longer paths. -/
def valueAt : DataTree κ V → List κ → Option (DataTree κ V)
  | dict _, [] => some (dict [])
  | leaf value, [] => some (leaf value)
  | list items, [] => some (list items)
  | dict entries, key :: path =>
    match entries.lookup key with
    | none => none
    | some value => value.valueAt path
  | _, _ :: _ => none

/-- Following the path does not run out of a dictionary. -/
def claims : DataTree κ V → List κ → Bool
  | _, [] => true
  | dict entries, key :: path =>
    match entries.lookup key with
    | none => false
    | some value => value.claims path
  | _, _ :: _ => true

/-- A leaf replaces whatever it meets. -/
@[simp]
theorem overlay_leaf (base : DataTree κ V) (value : V) : overlay base (leaf value) = leaf value := by
  cases base <;> rfl

/-- So does a list. -/
@[simp]
theorem overlay_list (base : DataTree κ V) (items : List (DataTree κ V)) :
    overlay base (list items) = list items := by
  cases base <;> rfl

/-- Dictionaries are merged. -/
@[simp]
theorem overlay_dict_dict (entries upper : List (κ × DataTree κ V)) :
    overlay (dict entries) (dict upper) = dict (mergeEntries entries upper) := rfl

/-- Where nothing is claimed there is no value. -/
theorem valueAt_of_not_claims {t : DataTree κ V} {path : List κ} (h : t.claims path = false) :
    t.valueAt path = none := by
  induction path generalizing t with
  | nil => simp [claims] at h
  | cons key path ih =>
    cases t with
    | leaf value => cases h
    | list items => cases h
    | dict entries =>
      rw [claims] at h
      rw [valueAt]
      cases hlookup : entries.lookup key with
      | none => rfl
      | some value =>
        rw [hlookup] at h
        exact ih h

/-- An overlay has its say at the paths it claims, and at no others. -/
theorem valueAt_overlay (base : DataTree κ V) {upper : DataTree κ V} (hover : upper.Wf) (path : List κ) :
    (overlay base upper).valueAt path =
      if upper.claims path then upper.valueAt path else base.valueAt path := by
  induction path generalizing base upper with
  | nil =>
    cases upper with
    | leaf value => simp [claims]
    | list items => simp [claims]
    | dict entries => cases base <;> rfl
  | cons key path ih =>
    cases upper with
    | leaf value => simp [claims, valueAt]
    | list items => simp [claims, valueAt]
    | dict overlay =>
      have hreplaced : (dict overlay).valueAt (key :: path) =
          if (dict overlay).claims (key :: path) then (dict overlay).valueAt (key :: path) else none := by
        split
        · rfl
        · rename_i h
          exact valueAt_of_not_claims (Bool.not_eq_true _ ▸ h)
      cases base with
      | leaf value => exact hreplaced
      | list items => exact hreplaced
      | dict entries =>
        rw [overlay_dict_dict, valueAt, lookup_mergeEntries hover.1, claims, valueAt, valueAt]
        cases hvalue : overlay.lookup key with
        | none => rfl
        | some value =>
          have hwf : value.Wf := wfEntries_iff.mp hover.2 _ (mem_of_lookup_eq_some hvalue)
          cases hbase : entries.lookup key with
          | some old => exact ih old hwf
          | none =>
            have hsame : mergeInto none value = value := by cases value <;> rfl
            rw [Option.elim_some, hsame]
            dsimp only
            split
            · rfl
            · rename_i h
              exact valueAt_of_not_claims (Bool.not_eq_true _ ▸ h)

/-- The value at a path of the first of the layers that claims it. -/
def topmost : List (DataTree κ V) → List κ → Option (DataTree κ V)
  | [], _ => none
  | layer :: layers, path => if layer.claims path then layer.valueAt path else topmost layers path

/-- A single layer has its say. -/
theorem topmost_singleton (layer : DataTree κ V) (path : List κ) :
    topmost [layer] path = layer.valueAt path := by
  rw [topmost, topmost]
  split
  · rfl
  · rename_i h
    exact (valueAt_of_not_claims (Bool.not_eq_true _ ▸ h)).symm

/-- A layer at the bottom has its say where no other one has. -/
theorem topmost_append (layers : List (DataTree κ V)) (bottom : DataTree κ V) (path : List κ) :
    topmost (layers ++ [bottom]) path =
      if ∃ layer ∈ layers, layer.claims path = true then topmost layers path
      else bottom.valueAt path := by
  induction layers with
  | nil => simp [topmost_singleton]
  | cons layer layers ih =>
    rw [List.cons_append, topmost, topmost, ih]
    cases h : layer.claims path with
    | true => simp [h]
    | false => simp [h]

/-- Where no layer claims the path there is no value. -/
theorem topmost_of_not_claims {layers : List (DataTree κ V)} {path : List κ}
    (h : ∀ layer ∈ layers, layer.claims path = false) : topmost layers path = none := by
  induction layers with
  | nil => rfl
  | cons layer layers ih =>
    rw [topmost, h layer List.mem_cons_self, if_neg Bool.false_ne_true]
    exact ih fun layer' hlayer' => h layer' (List.mem_cons_of_mem _ hlayer')

/-- A stack of layers has at each path the value of the last layer that claims it. -/
theorem valueAt_foldl_overlay (base : DataTree κ V) {layers : List (DataTree κ V)}
    (hlayers : ∀ layer ∈ layers, layer.Wf) (path : List κ) :
    (layers.foldl overlay base).valueAt path = topmost (layers.reverse ++ [base]) path := by
  induction layers using List.reverseRecOn with
  | nil => exact (topmost_singleton base path).symm
  | append_singleton layers layer ih =>
    have hrest := ih fun layer' h => hlayers layer' (List.mem_append_left _ h)
    rw [List.foldl_append, List.foldl_cons, List.foldl_nil,
      valueAt_overlay _ (hlayers layer (by simp)), hrest, List.reverse_append]
    rfl

/-- A key is in merged entries if it is in one of the two. -/
theorem isSome_lookup_mergeEntries {overlay : List (κ × DataTree κ V)}
    (hnodup : (overlay.map Prod.fst).Nodup) (base : List (κ × DataTree κ V)) (key : κ) :
    ((mergeEntries base overlay).lookup key).isSome =
      ((overlay.lookup key).isSome || (base.lookup key).isSome) := by
  rw [lookup_mergeEntries hnodup]
  cases overlay.lookup key <;> simp

/-! ### Overlays keep the keys distinct -/

/-- Merged entries have distinct keys. -/
theorem nodup_mergeEntries {base : List (κ × DataTree κ V)} (h : (base.map Prod.fst).Nodup)
    (overlay : List (κ × DataTree κ V)) : ((mergeEntries base overlay).map Prod.fst).Nodup := by
  induction overlay generalizing base with
  | nil => exact h
  | cons entry overlay ih =>
    rw [mergeEntries]
    exact ih (OrderedDict.nodup_setEntry h _ _)

/-- Setting a well-formed value keeps the entries well formed. -/
theorem wfEntries_setEntry {entries : List (κ × DataTree κ V)} (h : WfEntries entries) (key : κ)
    {value : DataTree κ V} (hvalue : value.Wf) : WfEntries (OrderedDict.setEntry entries key value) := by
  induction entries with
  | nil => exact ⟨hvalue, trivial⟩
  | cons entry entries ih =>
    rw [OrderedDict.setEntry]
    split
    · exact ⟨hvalue, h.2⟩
    · exact ⟨h.1, ih h.2⟩

mutual

/-- So does merging well-formed entries. -/
theorem wfEntries_mergeEntries {base overlay : List (κ × DataTree κ V)} (hbase : WfEntries base)
    (hoverlay : WfEntries overlay) : WfEntries (mergeEntries base overlay) := by
  cases overlay with
  | nil => exact hbase
  | cons entry overlay =>
    obtain ⟨key, value⟩ := entry
    rw [mergeEntries]
    refine wfEntries_mergeEntries (wfEntries_setEntry hbase key ?_) hoverlay.2
    exact wf_mergeInto (fun old hold => wfEntries_iff.mp hbase _ (mem_of_lookup_eq_some hold)) hoverlay.1

/-- What becomes of a well-formed value is well formed. -/
theorem wf_mergeInto {base : Option (DataTree κ V)} {value : DataTree κ V}
    (hbase : ∀ old, base = some old → old.Wf) (hvalue : value.Wf) : (mergeInto base value).Wf := by
  cases value with
  | leaf value => exact hvalue
  | list items => exact hvalue
  | dict overlay =>
    cases base with
    | none => exact hvalue
    | some old =>
      have hold := hbase old rfl
      cases old with
      | leaf _ => exact hvalue
      | list _ => exact hvalue
      | dict entries =>
        exact ⟨nodup_mergeEntries hold.1 overlay, wfEntries_mergeEntries hold.2 hvalue.2⟩

end

/-- An overlay of well-formed trees is well formed. -/
theorem wf_overlay {base upper : DataTree κ V} (hbase : base.Wf) (hover : upper.Wf) :
    (overlay base upper).Wf :=
  wf_mergeInto (fun _ h => Option.some.inj h ▸ hbase) hover

end Overlay

end DataTree
