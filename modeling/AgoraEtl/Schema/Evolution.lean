import AgoraEtl.Schema.Inference

/-!
# Evolution of schemas

`SchemaEvolution.merge` merges a schema with that of a record under a contract. The type of a merged
column is the new one if the old one can be widened to it, and `string` if not: this is the supremum
unless the new type lies below the old one. Every difference of types is recorded as a change, also
where the type stays `string`.
-/

namespace AgoraEtl.Schemas

/-! ### Changes -/

/-- `SchemaChange`. -/
structure SchemaChange where
  changeType : String
  columnName : String
  oldValue : Option String := none
  newValue : Option String := none
  message : String
  deriving DecidableEq

/-- `SchemaEvolutionError`. -/
structure SchemaEvolutionError where
  message : String
  deriving DecidableEq

def typeWidened (old : Column) (widened : DataType) : SchemaChange where
  changeType := "type_widened"
  columnName := old.name
  oldValue := some old.dataType.value
  newValue := some widened.value
  message := "Column '" ++ old.name ++ "' type widened: " ++ old.dataType.value ++ " → " ++
    widened.value

def typeConflict (old new : Column) : SchemaChange where
  changeType := "type_conflict"
  columnName := old.name
  oldValue := some old.dataType.value
  newValue := some new.dataType.value
  message := "Column '" ++ old.name ++ "' type conflict: " ++ old.dataType.value ++ " vs " ++
    new.dataType.value ++ " → widened to STRING"

def columnAdded (name : String) (column : Column) : SchemaChange where
  changeType := "column_added"
  columnName := name
  newValue := some column.dataType.value
  message := "New column '" ++ name ++ "' added (" ++ column.dataType.value ++ ")"

def columnDiscarded (name : String) (column : Column) : SchemaChange where
  changeType := "column_discarded"
  columnName := name
  newValue := some column.dataType.value
  message := "New column '" ++ name ++ "' discarded (contract: DISCARD_COLUMN)"

/-! ### Merging -/

/-- The merged column with its type: nullability and counts are the same in every case. -/
def Column.mergedWith (old new : Column) (dataType : DataType) : Column where
  name := old.name
  dataType := dataType
  nullable := old.nullable || new.nullable
  inferredFrom := old.inferredFrom + new.inferredFrom

/-- `_merge_column`, with the change that it records. -/
def mergeColumn (contract : SchemaContract) (old new : Column) :
    Except SchemaEvolutionError (Column × List SchemaChange) :=
  if old.dataType ≠ new.dataType then
    if canWiden old.dataType new.dataType then
      let widened := widenType old.dataType new.dataType
      if widened ≠ old.dataType then
        if contract = .freeze then
          .error ⟨"Schema frozen: cannot widen column '" ++ old.name ++ "' type from " ++
            old.dataType.value ++ " to " ++ widened.value⟩
        else .ok (old.mergedWith new widened, [typeWidened old widened])
      else .ok (old.mergedWith new widened, [])
    else if contract = .freeze then
      .error ⟨"Schema frozen: type conflict for column '" ++ old.name ++ "' (" ++
        old.dataType.value ++ " vs " ++ new.dataType.value ++ ")"⟩
    else .ok (old.mergedWith new .string, [typeConflict old new])
  else .ok (old.mergedWith new old.dataType, [])

/-- The loop over the columns of the old schema. -/
def mergeExisting (contract : SchemaContract) (new : OrderedDict String Column) :
    List (String × Column) → OrderedDict String Column → List SchemaChange →
      Except SchemaEvolutionError (OrderedDict String Column × List SchemaChange)
  | [], merged, changes => .ok (merged, changes)
  | (name, oldColumn) :: columns, merged, changes =>
    match new.get? name with
    | none => mergeExisting contract new columns (merged.set name oldColumn) changes
    | some newColumn =>
      match mergeColumn contract oldColumn newColumn with
      | .error error => .error error
      | .ok (column, change) =>
        mergeExisting contract new columns (merged.set name column) (changes ++ change)

/-- `_handle_new_column`. -/
def handleNewColumn (contract : SchemaContract) (name : String) (column : Column)
    (merged : OrderedDict String Column) (changes : List SchemaChange) :
    Except SchemaEvolutionError (OrderedDict String Column × List SchemaChange) :=
  match contract with
  | .evolve => .ok (merged.set name column, changes ++ [columnAdded name column])
  | .freeze => .error ⟨"Schema frozen: cannot add new column '" ++ name ++ "'"⟩
  | .discardColumn => .ok (merged, changes ++ [columnDiscarded name column])
  | .discardRow => .ok (merged, changes)

/-- The loop over the columns of the new schema. -/
def mergeNew (contract : SchemaContract) (old : OrderedDict String Column) :
    List (String × Column) → OrderedDict String Column → List SchemaChange →
      Except SchemaEvolutionError (OrderedDict String Column × List SchemaChange)
  | [], merged, changes => .ok (merged, changes)
  | (name, newColumn) :: columns, merged, changes =>
    if (old.get? name).isSome then mergeNew contract old columns merged changes
    else
      match handleNewColumn contract name newColumn merged changes with
      | .error error => .error error
      | .ok (merged, changes) => mergeNew contract old columns merged changes

/-- `merge`, with the changes that it records. -/
def merge {H : Type} [DecidableEq H] (digest : SchemaContent → H) (contract : SchemaContract)
    (old new : Schema) : Except SchemaEvolutionError (Schema × List SchemaChange) := do
  if old.hash digest = new.hash digest then return (old, [])
  let (merged, changes) ← mergeExisting contract new.columns old.columns.entries
    OrderedDict.empty []
  let (merged, changes) ← mergeNew contract old.columns new.columns.entries merged changes
  return ({ table := old.table, columns := merged,
            version := old.version + if changes.isEmpty then 0 else 1 }, changes)

/-! ### Merged columns -/

/-- The type of a merged column. -/
def mergedType (old new : DataType) : DataType := if old ≤ new then new else .string

def mergedColumn (old new : Column) : Column :=
  old.mergedWith new (mergedType old.dataType new.dataType)

/-- The merged type is the supremum if the new type is not below the old one, or if the supremum is
`string`. -/
theorem mergedType_eq_sup_iff (old new : DataType) :
    mergedType old new = old ⊔ new ↔ old ≤ new ∨ old ⊔ new = ⊤ := by
  cases old <;> cases new <;> decide

/-- The merged type holds the values of both. -/
theorem sup_le_mergedType (old new : DataType) : old ⊔ new ≤ mergedType old new := by
  unfold mergedType
  split
  next hle => rw [sup_eq_right.mpr hle]
  next hnot => exact le_top

/-- A text column stays one. -/
@[simp]
theorem mergedType_top (new : DataType) : mergedType .string new = .string := by
  cases new <;> decide

/-- Any other column changes its type when it meets another one. -/
theorem mergedType_of_ne_string {old new : DataType} (hne : old ≠ new) (hold : old ≠ .string) :
    mergedType old new ≠ old := by
  revert hne hold
  cases old <;> cases new <;> decide

/-- Columns of one type are merged without a change. -/
theorem mergeColumn_of_eq (contract : SchemaContract) {old new : Column}
    (h : old.dataType = new.dataType) :
    mergeColumn contract old new = .ok (mergedColumn old new, []) := by
  have htype : mergedType old.dataType new.dataType = old.dataType := by
    rw [mergedType, if_pos h.le, h]
  rw [mergeColumn, if_neg (not_not_intro h), mergedColumn, htype]

/-- Under every other contract than `FREEZE` a difference of types is recorded. -/
theorem mergeColumn_of_ne {contract : SchemaContract} (hcontract : contract ≠ .freeze)
    {old new : Column} (h : old.dataType ≠ new.dataType) :
    ∃ change, mergeColumn contract old new = .ok (mergedColumn old new, [change]) := by
  rw [mergeColumn, if_pos h]
  by_cases hwiden : canWiden old.dataType new.dataType
  · have hle := (DataType.canWiden_iff _ _).mp hwiden
    have hwidened : widenType old.dataType new.dataType = new.dataType := hle
    have htype : mergedType old.dataType new.dataType = new.dataType := if_pos hle
    simp only [if_pos hwiden, hwidened, if_pos h.symm, if_neg hcontract, mergedColumn, htype]
    exact ⟨_, rfl⟩
  · have hle : ¬ old.dataType ≤ new.dataType := fun hle =>
      hwiden ((DataType.canWiden_iff _ _).mpr hle)
    have htype : mergedType old.dataType new.dataType = .string := if_neg hle
    simp only [if_neg hwiden, if_neg hcontract, mergedColumn, htype]
    exact ⟨_, rfl⟩

/-- FREEZE rejects columns of different types. -/
theorem mergeColumn_freeze {old new : Column} (h : old.dataType ≠ new.dataType) :
    ∃ error, mergeColumn .freeze old new = .error error := by
  rw [mergeColumn, if_pos h]
  by_cases hwiden : canWiden old.dataType new.dataType
  · have hwidened : widenType old.dataType new.dataType = new.dataType :=
      (DataType.canWiden_iff _ _).mp hwiden
    simp only [if_pos hwiden, hwidened, if_pos h.symm, if_true]
    exact ⟨_, rfl⟩
  · simp only [if_neg hwiden, if_true]
    exact ⟨_, rfl⟩

/-! ### Merged schemas -/

/-- The new schema has another type for the column. -/
def Differs (new : OrderedDict String Column) (entry : String × Column) : Prop :=
  ∃ newColumn, new.get? entry.1 = some newColumn ∧ entry.2.dataType ≠ newColumn.dataType

/-- A column that the new schema does not have does not differ. -/
theorem not_differs_of_unknown {new : OrderedDict String Column} {entry : String × Column}
    (hunknown : new.get? entry.1 = none) : ¬ Differs new entry := by
  rintro ⟨newColumn, hnew, -⟩
  rw [hunknown] at hnew
  exact absurd hnew nofun

/-- Nor does one of the same type. -/
theorem not_differs_of_same {new : OrderedDict String Column} {entry : String × Column}
    {newColumn : Column} (hfound : new.get? entry.1 = some newColumn)
    (hsame : entry.2.dataType = newColumn.dataType) : ¬ Differs new entry := by
  rintro ⟨newColumn', hnew, hne⟩
  rw [hfound, Option.some.injEq] at hnew
  exact hne (hnew ▸ hsame)

/-- What becomes of a column of the old schema. -/
def mergedEntry (new : OrderedDict String Column) (entry : String × Column) : String × Column :=
  (entry.1, ((new.get? entry.1).map (mergedColumn entry.2)).getD entry.2)

/-- The existing columns are merged in order, each with its change. -/
theorem mergeExisting_ok {contract : SchemaContract} {new : OrderedDict String Column}
    {columns : List (String × Column)} (hnodup : (columns.map Prod.fst).Nodup)
    {merged : OrderedDict String Column}
    (hfresh : ∀ name ∈ columns.map Prod.fst, name ∉ merged.keys) (changes : List SchemaChange)
    (hok : contract ≠ .freeze ∨ ∀ entry ∈ columns, ¬ Differs new entry) :
    ∃ merged' later, mergeExisting contract new columns merged changes =
        .ok (merged', changes ++ later) ∧
      merged'.entries = merged.entries ++ columns.map (mergedEntry new) ∧
      (later = [] ↔ ∀ entry ∈ columns, ¬ Differs new entry) := by
  induction columns generalizing merged changes with
  | nil => exact ⟨merged, [], by rw [List.append_nil]; rfl, by simp, by simp⟩
  | cons entry columns ih =>
    obtain ⟨name, oldColumn⟩ := entry
    rw [List.map_cons, List.nodup_cons] at hnodup
    rw [List.map_cons, List.forall_mem_cons] at hfresh
    have hgo : ∀ column changes, column = (mergedEntry new (name, oldColumn)).2 →
        ∃ merged' later, mergeExisting contract new columns (merged.set name column) changes =
            .ok (merged', changes ++ later) ∧
          merged'.entries =
            merged.entries ++ ((name, oldColumn) :: columns).map (mergedEntry new) ∧
          (later = [] ↔ ∀ entry ∈ columns, ¬ Differs new entry) := by
      rintro _ changes rfl
      have hset := OrderedDict.entries_set_of_not_mem hfresh.1 (mergedEntry new (name, oldColumn)).2
      have hfresh' : ∀ name' ∈ columns.map Prod.fst,
          name' ∉ (merged.set name (mergedEntry new (name, oldColumn)).2).keys := by
        intro name' hname'
        rw [OrderedDict.mem_keys_set, not_or]
        exact ⟨fun h => hnodup.1 (h ▸ hname'), hfresh.2 name' hname'⟩
      have hok' : contract ≠ .freeze ∨ ∀ entry ∈ columns, ¬ Differs new entry :=
        hok.imp_right fun h entry hentry => h entry (List.mem_cons_of_mem _ hentry)
      obtain ⟨merged', later, hmerge, hentries, hlater⟩ := ih hnodup.2 hfresh' changes hok'
      refine ⟨merged', later, hmerge, ?_, hlater⟩
      rw [hentries, hset, List.append_assoc, List.singleton_append]
      rfl
    rw [mergeExisting, List.forall_mem_cons]
    cases hfound : new.get? name with
    | none =>
      obtain ⟨merged', later, hmerge, hentries, hlater⟩ := hgo oldColumn changes (by
        simp [mergedEntry, hfound])
      exact ⟨merged', later, hmerge, hentries,
        hlater.trans (and_iff_right (not_differs_of_unknown hfound)).symm⟩
    | some newColumn =>
      dsimp only
      by_cases hsame : oldColumn.dataType = newColumn.dataType
      · obtain ⟨merged', later, hmerge, hentries, hlater⟩ :=
          hgo (mergedColumn oldColumn newColumn) changes (by simp [mergedEntry, hfound])
        rw [mergeColumn_of_eq contract hsame]
        dsimp only
        rw [List.append_nil]
        exact ⟨merged', later, hmerge, hentries,
          hlater.trans (and_iff_right (not_differs_of_same hfound hsame)).symm⟩
      · have hdiffers : Differs new (name, oldColumn) := ⟨newColumn, hfound, hsame⟩
        have hcontract : contract ≠ .freeze :=
          hok.resolve_right fun h => h (name, oldColumn) List.mem_cons_self hdiffers
        obtain ⟨change, hcolumn⟩ := mergeColumn_of_ne hcontract hsame
        obtain ⟨merged', later, hmerge, hentries, -⟩ :=
          hgo (mergedColumn oldColumn newColumn) (changes ++ [change])
            (by simp [mergedEntry, hfound])
        rw [hcolumn]
        refine ⟨merged', change :: later, ?_, hentries, ?_⟩
        · rw [List.append_cons]
          exact hmerge
        · exact ⟨nofun, fun h => absurd hdiffers h.1⟩

/-- FREEZE rejects a schema in which one of them differs. -/
theorem mergeExisting_freeze {new : OrderedDict String Column} {columns : List (String × Column)}
    (hdiffers : ∃ entry ∈ columns, Differs new entry) (merged : OrderedDict String Column)
    (changes : List SchemaChange) :
    ∃ error, mergeExisting .freeze new columns merged changes = .error error := by
  induction columns generalizing merged changes with
  | nil => simp at hdiffers
  | cons entry columns ih =>
    obtain ⟨name, oldColumn⟩ := entry
    rw [mergeExisting]
    simp only [List.mem_cons, exists_eq_or_imp] at hdiffers
    cases hfound : new.get? name with
    | none =>
      exact ih (hdiffers.resolve_left (not_differs_of_unknown hfound)) _ _
    | some newColumn =>
      dsimp only
      by_cases hsame : oldColumn.dataType = newColumn.dataType
      · rw [mergeColumn_of_eq .freeze hsame]
        exact ih (hdiffers.resolve_left (not_differs_of_same hfound hsame)) _ _
      · obtain ⟨error, herror⟩ := mergeColumn_freeze hsame
        rw [herror]
        exact ⟨error, rfl⟩

/-- Nothing is merged at the start. -/
theorem not_mem_keys_empty (old : OrderedDict String Column) :
    ∀ name ∈ old.entries.map Prod.fst, name ∉ (OrderedDict.empty : OrderedDict String Column).keys :=
  fun _ _ => List.not_mem_nil

/-- The columns of the new schema that are added. -/
def addedEntries (contract : SchemaContract) (old : OrderedDict String Column)
    (columns : List (String × Column)) : List (String × Column) :=
  if contract = .evolve then columns.filter fun entry => (old.get? entry.1).isNone else []

/-- The new columns are added in order, each with its change. -/
theorem mergeNew_ok {contract : SchemaContract} {old : OrderedDict String Column}
    {columns : List (String × Column)} (hnodup : (columns.map Prod.fst).Nodup)
    {merged : OrderedDict String Column}
    (hfresh : ∀ name ∈ columns.map Prod.fst, old.get? name = none → name ∉ merged.keys)
    (changes : List SchemaChange)
    (hok : contract ≠ .freeze ∨ ∀ entry ∈ columns, old.get? entry.1 ≠ none) :
    ∃ merged' later, mergeNew contract old columns merged changes = .ok (merged', changes ++ later) ∧
      merged'.entries = merged.entries ++ addedEntries contract old columns ∧
      (later = [] ↔ contract = .discardRow ∨ ∀ entry ∈ columns, old.get? entry.1 ≠ none) := by
  induction columns generalizing merged changes with
  | nil => exact ⟨merged, [], by rw [List.append_nil]; rfl, by simp [addedEntries], by simp⟩
  | cons entry columns ih =>
    obtain ⟨name, column⟩ := entry
    rw [List.map_cons, List.nodup_cons] at hnodup
    rw [List.map_cons, List.forall_mem_cons] at hfresh
    have hok' : contract ≠ .freeze ∨ ∀ entry ∈ columns, old.get? entry.1 ≠ none :=
      hok.imp_right fun h entry hentry => h entry (List.mem_cons_of_mem _ hentry)
    rw [mergeNew, List.forall_mem_cons]
    by_cases hknown : old.get? name = none
    · have hnot : (old.get? name).isSome = false := by simp [hknown]
      have hcontract : contract ≠ .freeze :=
        hok.resolve_right fun h => h (name, column) List.mem_cons_self hknown
      have hunknown : ¬ (old.get? name ≠ none ∧ ∀ entry ∈ columns, old.get? entry.1 ≠ none) :=
        fun h => h.1 hknown
      rw [hnot]
      cases contract with
      | freeze => exact absurd rfl hcontract
      | evolve =>
        have hset := OrderedDict.entries_set_of_not_mem (hfresh.1 hknown) column
        have hfresh' : ∀ name' ∈ columns.map Prod.fst, old.get? name' = none →
            name' ∉ (merged.set name column).keys := by
          intro name' hname' hnone
          rw [OrderedDict.mem_keys_set, not_or]
          exact ⟨fun h => hnodup.1 (h ▸ hname'), hfresh.2 name' hname' hnone⟩
        obtain ⟨merged', later, hmerge, hentries, -⟩ :=
          ih hnodup.2 hfresh' (changes ++ [columnAdded name column]) hok'
        refine ⟨merged', columnAdded name column :: later, ?_, ?_, ?_⟩
        · rw [List.append_cons]
          exact hmerge
        · rw [hentries, hset, List.append_assoc, List.singleton_append]
          simp [addedEntries, hknown]
        · exact ⟨(by simp), fun h => h.elim (by simp) fun h => absurd h hunknown⟩
      | discardColumn =>
        obtain ⟨merged', later, hmerge, hentries, -⟩ :=
          ih hnodup.2 hfresh.2 (changes ++ [columnDiscarded name column]) hok'
        refine ⟨merged', columnDiscarded name column :: later, ?_, hentries, ?_⟩
        · rw [List.append_cons]
          exact hmerge
        · exact ⟨(by simp), fun h => h.elim (by simp) fun h => absurd h hunknown⟩
      | discardRow =>
        obtain ⟨merged', later, hmerge, hentries, hlater⟩ := ih hnodup.2 hfresh.2 changes hok'
        exact ⟨merged', later, hmerge, hentries, by simpa using hlater⟩
    · have hsome : (old.get? name).isSome = true := by
        rw [Option.isSome_iff_ne_none]
        exact hknown
      rw [if_pos hsome]
      obtain ⟨merged', later, hmerge, hentries, hlater⟩ := ih hnodup.2 hfresh.2 changes hok'
      refine ⟨merged', later, hmerge, ?_, ?_⟩
      · rw [hentries]
        unfold addedEntries
        rw [List.filter_cons_of_neg (by simpa using hknown)]
      · rw [hlater, and_iff_right hknown]

/-- FREEZE rejects a schema with a new column. -/
theorem mergeNew_freeze {old : OrderedDict String Column} {columns : List (String × Column)}
    (hunknown : ∃ entry ∈ columns, old.get? entry.1 = none) (merged : OrderedDict String Column)
    (changes : List SchemaChange) :
    ∃ error, mergeNew .freeze old columns merged changes = .error error := by
  induction columns with
  | nil => simp at hunknown
  | cons entry columns ih =>
    obtain ⟨name, column⟩ := entry
    simp only [List.mem_cons, exists_eq_or_imp] at hunknown
    rw [mergeNew]
    split
    next hknown =>
      refine ih (hunknown.resolve_left fun hnone => ?_)
      rw [hnone] at hknown
      exact absurd hknown (by simp)
    next hnot => exact ⟨_, rfl⟩

section

variable {H : Type} [DecidableEq H] (digest : SchemaContent → H)

/-- The new schema has only columns of the old one, and of their types. -/
def Fits (old new : OrderedDict String Column) : Prop :=
  (∀ entry ∈ old.entries, ¬ Differs new entry) ∧ ∀ entry ∈ new.entries, old.get? entry.1 ≠ none

/-- Schemas of one hash are not merged. -/
theorem merge_of_hash_eq (contract : SchemaContract) {old new : Schema}
    (h : old.hash digest = new.hash digest) : merge digest contract old new = .ok (old, []) := by
  rw [merge, if_pos h]
  rfl

/-- A merge of different schemas, under any contract that lets it through: what the columns become
and when a change is recorded. -/
theorem merge_ok {contract : SchemaContract} {old new : Schema}
    (hne : old.hash digest ≠ new.hash digest)
    (hok : contract ≠ .freeze ∨ Fits old.columns new.columns) :
    ∃ merged changes, merge digest contract old new = .ok (merged, changes) ∧
      merged.table = old.table ∧
      merged.columns.entries = old.columns.entries.map (mergedEntry new.columns) ++
        addedEntries contract old.columns new.columns.entries ∧
      merged.version = old.version + (if changes.isEmpty then 0 else 1) ∧
      (changes = [] ↔ (∀ entry ∈ old.columns.entries, ¬ Differs new.columns entry) ∧
        (contract = .discardRow ∨ ∀ entry ∈ new.columns.entries,
          old.columns.get? entry.1 ≠ none)) := by
  obtain ⟨existing, widened, hexisting, hentries, hwidened⟩ :=
    mergeExisting_ok old.columns.nodup (not_mem_keys_empty old.columns) []
      (hok.imp_right And.left)
  have hkeys : existing.keys = old.columns.keys := by
    rw [OrderedDict.keys, hentries, OrderedDict.entries_empty, List.nil_append, List.map_map]
    rfl
  have hfresh : ∀ name ∈ new.columns.entries.map Prod.fst, old.columns.get? name = none →
      name ∉ existing.keys := by
    intro name _ hnone
    rw [hkeys]
    exact OrderedDict.get?_eq_none_iff.mp hnone
  obtain ⟨merged, added, hmerged, hadded, hnew⟩ :=
    mergeNew_ok new.columns.nodup hfresh ([] ++ widened) (hok.imp_right And.right)
  refine ⟨{ table := old.table, columns := merged,
            version := old.version + if ([] ++ widened ++ added).isEmpty then 0 else 1 },
    [] ++ widened ++ added, ?_, rfl, ?_, rfl, ?_⟩
  · rw [merge, if_neg hne]
    simp only [hexisting, hmerged, bind, Except.bind, pure, Except.pure]
  · rw [hadded, hentries, OrderedDict.entries_empty, List.nil_append]
  · rw [List.nil_append, List.append_eq_nil_iff, hwidened, hnew]

/-- FREEZE rejects a schema that does not fit. -/
theorem merge_freeze {old new : Schema} (hne : old.hash digest ≠ new.hash digest)
    (hnot : ¬ Fits old.columns new.columns) :
    ∃ error, merge digest .freeze old new = .error error := by
  rw [merge, if_neg hne]
  by_cases hdiffers : ∃ entry ∈ old.columns.entries, Differs new.columns entry
  · obtain ⟨error, herror⟩ := mergeExisting_freeze hdiffers OrderedDict.empty []
    rw [herror]
    exact ⟨error, rfl⟩
  · have hsame : ∀ entry ∈ old.columns.entries, ¬ Differs new.columns entry :=
      fun entry hentry h => hdiffers ⟨entry, hentry, h⟩
    obtain ⟨existing, widened, hexisting, -⟩ :=
      mergeExisting_ok old.columns.nodup (not_mem_keys_empty old.columns) [] (.inr hsame)
    have hunknown : ∃ entry ∈ new.columns.entries, old.columns.get? entry.1 = none := by
      by_contra hknown
      exact hnot ⟨hsame, fun entry hentry h => hknown ⟨entry, hentry, h⟩⟩
    obtain ⟨error, herror⟩ := mergeNew_freeze hunknown existing ([] ++ widened)
    rw [hexisting]
    exact ⟨error, by simp only [bind, Except.bind, herror]⟩

/-- The column of a name after a merge that the contract lets through. -/
def evolvedColumn (contract : SchemaContract) : Option Column → Option Column → Option Column
  | some old, some new => some (mergedColumn old new)
  | some old, none => some old
  | none, new => if contract = .evolve then new else none

/-- A merged schema has under each name the evolved column. -/
theorem get?_evolved {contract : SchemaContract} {old new merged : OrderedDict String Column}
    (hentries : merged.entries = old.entries.map (mergedEntry new) ++
      addedEntries contract old new.entries) (name : String) :
    merged.get? name = evolvedColumn contract (old.get? name) (new.get? name) := by
  cases hold : old.get? name with
  | some oldColumn =>
    have hmem : mergedEntry new (name, oldColumn) ∈ merged.entries := by
      rw [hentries]
      exact List.mem_append_left _ (List.mem_map_of_mem (OrderedDict.mem_entries_iff.mpr hold))
    rw [OrderedDict.mem_entries_iff.mp hmem]
    cases new.get? name <;> rfl
  | none =>
    have hnot : name ∉ (old.entries.map (mergedEntry new)).map Prod.fst := by
      rw [List.map_map]
      exact OrderedDict.get?_eq_none_iff.mp hold
    rw [evolvedColumn]
    by_cases hcontract : contract = .evolve
    · rw [addedEntries, if_pos hcontract] at hentries
      rw [if_pos hcontract]
      cases hnew : new.get? name with
      | some newColumn =>
        refine OrderedDict.mem_entries_iff.mp ?_
        rw [hentries]
        refine List.mem_append_right _ (List.mem_filter.mpr ⟨?_, by simp [hold]⟩)
        exact OrderedDict.mem_entries_iff.mpr hnew
      | none =>
        refine OrderedDict.get?_eq_none_iff.mpr fun hmem => ?_
        rw [OrderedDict.keys, hentries, List.map_append, List.mem_append] at hmem
        refine OrderedDict.get?_eq_none_iff.mp hnew ?_
        exact (List.filter_sublist.map Prod.fst).subset (hmem.resolve_left hnot)
    · rw [addedEntries, if_neg hcontract, List.append_nil] at hentries
      rw [if_neg hcontract, OrderedDict.get?_eq_none_iff, OrderedDict.keys, hentries]
      exact hnot

/-- EVOLVE merges any two schemas, column by column. -/
theorem get?_merge_evolve {old new : Schema} (hne : old.hash digest ≠ new.hash digest) :
    ∃ merged changes, merge digest .evolve old new = .ok (merged, changes) ∧
      ∀ name, merged.columns.get? name =
        evolvedColumn .evolve (old.columns.get? name) (new.columns.get? name) := by
  have hcontract : SchemaContract.evolve ≠ .freeze := nofun
  obtain ⟨merged, changes, hmerge, -, hentries, -⟩ := merge_ok digest hne (.inl hcontract)
  exact ⟨merged, changes, hmerge, get?_evolved hentries⟩

end

end AgoraEtl.Schemas
