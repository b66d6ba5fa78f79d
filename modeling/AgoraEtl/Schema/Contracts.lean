import AgoraEtl.Schema.Agreement

/-!
# Contracts over a run

What one record does to the schema is given by four facts about its fields: whether one of them is
unknown, has another type than its column, has another type than a `string` column, or has a column
that is not nullable. They decide whether the content of the schema changes and whether a change is
recorded, which is what the version follows. Each contract is kept in a run exactly when these agree
at every record.
-/

namespace AgoraEtl.Schemas

/-! ### Fields and columns -/

/-- A field has no column. -/
def Unknown (schema : Schema) (fields : Fields) : Prop :=
  ∃ name value, fields.get? name = some value ∧ schema.columns.get? name = none

/-- A field has another type than its column, which is not `string`. -/
def Widens (schema : Schema) (fields : Fields) : Prop :=
  ∃ name value column, fields.get? name = some value ∧ schema.columns.get? name = some column ∧
    column.dataType ≠ inferPythonType value ∧ column.dataType ≠ .string

/-- A field of another type has a `string` column. -/
def Clashes (schema : Schema) (fields : Fields) : Prop :=
  ∃ name value column, fields.get? name = some value ∧ schema.columns.get? name = some column ∧
    column.dataType ≠ inferPythonType value ∧ column.dataType = .string

/-- A field has a column that is not nullable. -/
def Loosens (schema : Schema) (fields : Fields) : Prop :=
  ∃ name value column, fields.get? name = some value ∧ schema.columns.get? name = some column ∧
    column.nullable = false

/-- Every field is a known column, and its value is null or of the type of the column. -/
def Conforms (schema : Schema) (fields : Fields) : Prop :=
  ∀ name value, fields.get? name = some value →
    ∃ column, schema.columns.get? name = some column ∧
      (inferPythonType value = .null ∨ inferPythonType value = column.dataType)

/-- A record violates the schema exactly if it does not conform. -/
theorem recordViolatesSchema_iff (record : Record) (schema : Schema) :
    recordViolatesSchema record schema = true ↔ ¬ Conforms schema (extractRecordFields record) := by
  unfold recordViolatesSchema Conforms
  rw [List.any_eq_true]
  constructor
  · rintro ⟨field, hmem, hviolates⟩ hconforms
    obtain ⟨column, hfound, hfits⟩ :=
      hconforms field.1 field.2 (OrderedDict.mem_entries_iff.mp hmem)
    rw [hfound] at hviolates
    obtain hnull | hsame := hfits
    · simp [hnull] at hviolates
    · simp [hsame] at hviolates
  · intro hnot
    push Not at hnot
    obtain ⟨name, value, hvalue, hcolumn⟩ := hnot
    refine ⟨(name, value), OrderedDict.mem_entries_iff.mpr hvalue, ?_⟩
    cases hfound : schema.columns.get? name with
    | none => simp
    | some column =>
      obtain ⟨hnull, htype⟩ := hcolumn column hfound
      simp [hnull, htype]

/-! ### One merge -/

/-- The columns go up, and stay nullable. -/
def Below (schema other : Schema) : Prop :=
  ∀ name column, schema.columns.get? name = some column →
    ∃ column', other.columns.get? name = some column' ∧ column.dataType ≤ column'.dataType ∧
      (column.nullable = true → column'.nullable = true)

/-- The fields fit into nullable columns of at least their types. -/
def Covers (schema : Schema) (fields : Fields) : Prop :=
  ∀ name value, fields.get? name = some value →
    ∃ column, schema.columns.get? name = some column ∧ inferPythonType value ≤ column.dataType ∧
      column.nullable = true

/-- A schema lies below itself. -/
theorem Below.refl (schema : Schema) : Below schema schema :=
  fun _ column h => ⟨column, h, le_rfl, id⟩

/-- Lying below is transitive. -/
theorem Below.trans {schema other last : Schema} (h : Below schema other)
    (h' : Below other last) : Below schema last := by
  intro name column hcolumn
  obtain ⟨column', hcolumn', hle, hnullable⟩ := h name column hcolumn
  obtain ⟨column'', hcolumn'', hle', hnullable'⟩ := h' name column' hcolumn'
  exact ⟨column'', hcolumn'', hle.trans hle', hnullable' ∘ hnullable⟩

/-- A wider schema covers the same records. -/
theorem Covers.mono {schema other : Schema} {fields : Fields} (h : Covers schema fields)
    (hbelow : Below schema other) : Covers other fields := by
  intro name value hvalue
  obtain ⟨column, hcolumn, hle, hnullable⟩ := h name value hvalue
  obtain ⟨column', hcolumn', hle', hnullable'⟩ := hbelow name column hcolumn
  exact ⟨column', hcolumn', hle.trans hle', hnullable' hnullable⟩

/-- What a merge with the fields of a record makes of a schema. -/
structure Merged (contract : SchemaContract) (schema : Schema) (fields : Fields)
    (merged : Schema) : Prop where
  content_iff : merged.content = schema.content ↔ ¬ Widens schema fields ∧
    ¬ Loosens schema fields ∧ ¬ (contract = .evolve ∧ Unknown schema fields)
  version : (merged.version = schema.version + 1 ∧ (Widens schema fields ∨ Clashes schema fields ∨
      (contract ≠ .discardRow ∧ Unknown schema fields))) ∨
    (merged.version = schema.version ∧ ¬ (Widens schema fields ∨ Clashes schema fields ∨
      (contract ≠ .discardRow ∧ Unknown schema fields)))
  keys : contract ≠ .evolve → merged.columns.keys = schema.columns.keys
  below : Below schema merged
  covers : contract = .evolve ∨ ¬ Unknown schema fields → Covers merged fields

/-- Nothing is made of a schema by fields that it has with their types and nullable. -/
theorem Merged.self {contract : SchemaContract} {schema : Schema} {fields : Fields}
    (h : ∀ name value, fields.get? name = some value → ∃ column,
      schema.columns.get? name = some column ∧ column.dataType = inferPythonType value ∧
        column.nullable = true) : Merged contract schema fields schema := by
  have hfound : ∀ name value column, fields.get? name = some value →
      schema.columns.get? name = some column →
      column.dataType = inferPythonType value ∧ column.nullable = true := by
    intro name value column hvalue hcolumn
    obtain ⟨column', hcolumn', htype, hnullable⟩ := h name value hvalue
    rw [hcolumn, Option.some.injEq] at hcolumn'
    exact hcolumn' ▸ ⟨htype, hnullable⟩
  have hunknown : ¬ Unknown schema fields := by
    rintro ⟨name, value, hvalue, hnone⟩
    obtain ⟨column, hcolumn, -⟩ := h name value hvalue
    rw [hnone] at hcolumn
    exact absurd hcolumn nofun
  have hwidens : ¬ Widens schema fields := by
    rintro ⟨name, value, column, hvalue, hcolumn, hne, -⟩
    exact hne (hfound name value column hvalue hcolumn).1
  have hclashes : ¬ Clashes schema fields := by
    rintro ⟨name, value, column, hvalue, hcolumn, hne, -⟩
    exact hne (hfound name value column hvalue hcolumn).1
  have hloosens : ¬ Loosens schema fields := by
    rintro ⟨name, value, column, hvalue, hcolumn, hnullable⟩
    rw [(hfound name value column hvalue hcolumn).2] at hnullable
    exact absurd hnullable nofun
  refine ⟨iff_of_true rfl ⟨hwidens, hloosens, fun h => hunknown h.2⟩, .inr ⟨rfl, ?_⟩, fun _ => rfl,
    Below.refl schema, fun _ name value hvalue => ?_⟩
  · rintro (h | h | h)
    · exact hwidens h
    · exact hclashes h
    · exact hunknown h.2
  · obtain ⟨column, hcolumn, htype, hnullable⟩ := h name value hvalue
    exact ⟨column, hcolumn, htype.ge, hnullable⟩

/-- The column that is inferred from a field. -/
def fieldColumn (name : String) (value : PyValue) : Column :=
  { name := name, dataType := inferPythonType value, nullable := true, inferredFrom := 1 }

/-- The columns are those of the fields of a record. -/
def FieldColumns (columns : OrderedDict String Column) (fields : Fields) : Prop :=
  ∀ name, columns.get? name = (fields.get? name).map (fieldColumn name)

/-- A column differs exactly if the record widens it or clashes with it. -/
theorem exists_differs_iff {schema : Schema} {new : OrderedDict String Column} {fields : Fields}
    (hnew : FieldColumns new fields) :
    (∃ entry ∈ schema.columns.entries, Differs new entry) ↔
      Widens schema fields ∨ Clashes schema fields := by
  constructor
  · rintro ⟨⟨name, column⟩, hmem, newColumn, hfound, hne⟩
    rw [hnew name, Option.map_eq_some_iff] at hfound
    obtain ⟨value, hvalue, rfl⟩ := hfound
    have hcolumn := OrderedDict.mem_entries_iff.mp hmem
    by_cases hstring : column.dataType = .string
    · exact .inr ⟨name, value, column, hvalue, hcolumn, hne, hstring⟩
    · exact .inl ⟨name, value, column, hvalue, hcolumn, hne, hstring⟩
  · have hdiffers : ∀ name value column, fields.get? name = some value →
        schema.columns.get? name = some column → column.dataType ≠ inferPythonType value →
        ∃ entry ∈ schema.columns.entries, Differs new entry := by
      intro name value column hvalue hcolumn hne
      refine ⟨(name, column), OrderedDict.mem_entries_iff.mpr hcolumn, fieldColumn name value, ?_,
        hne⟩
      rw [hnew name, hvalue]
      rfl
    rintro (⟨name, value, column, hvalue, hcolumn, hne, -⟩ |
      ⟨name, value, column, hvalue, hcolumn, hne, -⟩)
    · exact hdiffers name value column hvalue hcolumn hne
    · exact hdiffers name value column hvalue hcolumn hne

/-- A column is new exactly if the record has an unknown one. -/
theorem exists_unknown_iff {schema : Schema} {new : OrderedDict String Column} {fields : Fields}
    (hnew : FieldColumns new fields) :
    (∃ entry ∈ new.entries, schema.columns.get? entry.1 = none) ↔ Unknown schema fields := by
  constructor
  · rintro ⟨⟨name, newColumn⟩, hmem, hnone⟩
    have hfound := OrderedDict.mem_entries_iff.mp hmem
    rw [hnew name, Option.map_eq_some_iff] at hfound
    obtain ⟨value, hvalue, -⟩ := hfound
    exact ⟨name, value, hvalue, hnone⟩
  · rintro ⟨name, value, hvalue, hnone⟩
    refine ⟨(name, fieldColumn name value), OrderedDict.mem_entries_iff.mpr ?_, hnone⟩
    rw [hnew name, hvalue]
    rfl

/-- Schemas of one content fit. -/
theorem fits_of_content_eq {schema other : Schema} (h : schema.content = other.content) :
    Fits schema.columns other.columns := by
  refine ⟨?_, ?_⟩
  · rintro ⟨name, column⟩ hmem ⟨newColumn, hfound, hne⟩
    obtain ⟨column', hcolumn', htype, -⟩ :=
      Schema.exists_get?_of_content_eq h (OrderedDict.mem_entries_iff.mp hmem)
    rw [hcolumn', Option.some.injEq] at hfound
    exact hne (hfound ▸ htype.symm)
  · rintro ⟨name, column⟩ hmem hnone
    obtain ⟨column', hcolumn', -⟩ :=
      Schema.exists_get?_of_content_eq h.symm (OrderedDict.mem_entries_iff.mp hmem)
    exact absurd (hcolumn'.symm.trans hnone) nofun

/-- A record's schema fits exactly if nothing is unknown, widened or clashing. -/
theorem fits_iff {schema : Schema} {new : OrderedDict String Column} {fields : Fields}
    (hnew : FieldColumns new fields) :
    Fits schema.columns new ↔
      ¬ Unknown schema fields ∧ ¬ Widens schema fields ∧ ¬ Clashes schema fields := by
  rw [Fits, ← exists_unknown_iff hnew, ← not_or, ← exists_differs_iff hnew]
  push Not
  exact and_comm

section

variable {contract : SchemaContract} {schema merged : Schema} {new : OrderedDict String Column}
  {fields : Fields}

/-- The columns of a merge, by name. -/
def EvolvesTo (contract : SchemaContract) (schema : Schema) (new : OrderedDict String Column)
    (merged : Schema) : Prop :=
  merged.table = schema.table ∧
    merged.columns.entries = schema.columns.entries.map (mergedEntry new) ++
      addedEntries contract schema.columns new.entries

/-- A column that the record has is merged with it. -/
theorem EvolvesTo.get?_known (h : EvolvesTo contract schema new merged)
    (hnew : FieldColumns new fields) {name : String} {value : PyValue} {column : Column}
    (hvalue : fields.get? name = some value) (hcolumn : schema.columns.get? name = some column) :
    merged.columns.get? name = some (mergedColumn column (fieldColumn name value)) := by
  have hmerged := get?_evolved h.2 name
  rw [hmerged, hcolumn, hnew name, hvalue]
  rfl

/-- A column that it does not have is kept. -/
theorem EvolvesTo.get?_kept (h : EvolvesTo contract schema new merged)
    (hnew : FieldColumns new fields) {name : String} {column : Column}
    (hvalue : fields.get? name = none) (hcolumn : schema.columns.get? name = some column) :
    merged.columns.get? name = some column := by
  have hmerged := get?_evolved h.2 name
  rw [hmerged, hcolumn, hnew name, hvalue]
  rfl

/-- A new column is added. -/
theorem EvolvesTo.get?_added (h : EvolvesTo .evolve schema new merged)
    (hnew : FieldColumns new fields) {name : String} {value : PyValue}
    (hvalue : fields.get? name = some value) (hnone : schema.columns.get? name = none) :
    merged.columns.get? name = some (fieldColumn name value) := by
  have hmerged := get?_evolved h.2 name
  rw [hmerged, hnone, hnew name, hvalue]
  rfl

/-- The schema lies below what it evolves to. -/
theorem EvolvesTo.below (h : EvolvesTo contract schema new merged)
    (hnew : FieldColumns new fields) : Below schema merged := by
  intro name column hcolumn
  cases hvalue : fields.get? name with
  | none => exact ⟨column, h.get?_kept hnew hvalue hcolumn, le_rfl, id⟩
  | some value =>
    refine ⟨_, h.get?_known hnew hvalue hcolumn, ?_, fun _ => Bool.or_true _⟩
    exact le_sup_left.trans (sup_le_mergedType _ _)

/-- The evolved schema covers the record. -/
theorem EvolvesTo.covers (h : EvolvesTo contract schema new merged)
    (hnew : FieldColumns new fields) (hknown : contract = .evolve ∨ ¬ Unknown schema fields) :
    Covers merged fields := by
  intro name value hvalue
  cases hcolumn : schema.columns.get? name with
  | some column =>
    refine ⟨_, h.get?_known hnew hvalue hcolumn, ?_, Bool.or_true _⟩
    exact le_sup_right.trans (sup_le_mergedType _ _)
  | none =>
    rcases hknown with rfl | hknown
    · exact ⟨_, h.get?_added hnew hvalue hcolumn, le_rfl, rfl⟩
    · exact absurd ⟨name, value, hvalue, hcolumn⟩ hknown

/-- The content is the same where no type and no nullability changes and no column comes. -/
theorem EvolvesTo.content_iff (h : EvolvesTo contract schema new merged)
    (hnew : FieldColumns new fields) :
    merged.content = schema.content ↔ ¬ Widens schema fields ∧ ¬ Loosens schema fields ∧
      ¬ (contract = .evolve ∧ Unknown schema fields) := by
  constructor
  · intro hcontent
    refine ⟨?_, ?_, ?_⟩
    · rintro ⟨name, value, column, hvalue, hcolumn, hne, hstring⟩
      obtain ⟨column', hcolumn', htype, -⟩ :=
        Schema.exists_get?_of_content_eq hcontent.symm hcolumn
      rw [h.get?_known hnew hvalue hcolumn, Option.some.injEq] at hcolumn'
      rw [← hcolumn'] at htype
      exact mergedType_of_ne_string hne hstring htype
    · rintro ⟨name, value, column, hvalue, hcolumn, hnullable⟩
      obtain ⟨column', hcolumn', -, hsame⟩ :=
        Schema.exists_get?_of_content_eq hcontent.symm hcolumn
      rw [h.get?_known hnew hvalue hcolumn, Option.some.injEq] at hcolumn'
      rw [← hcolumn', hnullable] at hsame
      exact absurd hsame (by simp [mergedColumn, Column.mergedWith, fieldColumn])
    · rintro ⟨rfl, name, value, hvalue, hnone⟩
      obtain ⟨column', hcolumn', -⟩ :=
        Schema.exists_get?_of_content_eq hcontent (h.get?_added hnew hvalue hnone)
      rw [hnone] at hcolumn'
      exact absurd hcolumn' (by simp)
  · rintro ⟨hwidens, hloosens, hunknown⟩
    have hadded : addedEntries contract schema.columns new.entries = [] := by
      unfold addedEntries
      split
      next hevolve =>
        refine List.filter_eq_nil_iff.mpr fun entry hentry hnone => ?_
        exact hunknown ⟨hevolve, (exists_unknown_iff hnew).mp ⟨entry, hentry, by simpa using hnone⟩⟩
      next => rfl
    have hentry : ∀ entry ∈ schema.columns.entries,
        Schema.contentEntry (mergedEntry new entry) = Schema.contentEntry entry := by
      rintro ⟨name, column⟩ hmem
      have hcolumn := OrderedDict.mem_entries_iff.mp hmem
      unfold mergedEntry
      dsimp only
      rw [hnew name]
      cases hvalue : fields.get? name with
      | none => rfl
      | some value =>
        have htype : mergedType column.dataType (inferPythonType value) = column.dataType := by
          by_cases hstring : column.dataType = .string
          · rw [hstring, mergedType_top]
          · by_cases hsame : column.dataType = inferPythonType value
            · rw [← hsame, mergedType, if_pos le_rfl]
            · exact absurd ⟨name, value, column, hvalue, hcolumn, hsame, hstring⟩ hwidens
        have hnullable : column.nullable = true := by
          by_contra hnot
          exact hloosens ⟨name, value, column, hvalue, hcolumn, Bool.eq_false_iff.mpr hnot⟩
        simp [Schema.contentEntry, mergedColumn, Column.mergedWith, fieldColumn, htype, hnullable]
    have hcolumns : merged.columns.entries.map Schema.contentEntry =
        schema.columns.entries.map Schema.contentEntry := by
      rw [h.2, hadded, List.append_nil, List.map_map]
      exact List.map_congr_left hentry
    unfold Schema.content
    rw [h.1, hcolumns]

variable {H : Type} [DecidableEq H] (digest : SchemaContent → H)

/-- A merge that the contract lets through. -/
theorem exists_merged (hdigest : Function.Injective digest) {record : Schema}
    (hnew : FieldColumns record.columns fields)
    (hok : contract ≠ .freeze ∨ Fits schema.columns record.columns) :
    ∃ merged changes, merge digest contract schema record = .ok (merged, changes) ∧
      Merged contract schema fields merged := by
  by_cases hhash : schema.hash digest = record.hash digest
  · have hcontent : schema.content = record.content := hdigest hhash
    refine ⟨schema, [], merge_of_hash_eq digest contract hhash, Merged.self fun name value hvalue => ?_⟩
    have hfound : record.columns.get? name = some (fieldColumn name value) := by
      rw [hnew name, hvalue]
      rfl
    exact Schema.exists_get?_of_content_eq hcontent.symm hfound
  · obtain ⟨merged, changes, hmerge, htable, hentries, hversion, hchanges⟩ :=
      merge_ok digest hhash hok
    have hevolves : EvolvesTo contract schema record.columns merged := ⟨htable, hentries⟩
    have hnone : changes = [] ↔ ¬ (Widens schema fields ∨ Clashes schema fields ∨
        (contract ≠ .discardRow ∧ Unknown schema fields)) := by
      rw [hchanges, ← exists_unknown_iff hnew, ← or_assoc, ← exists_differs_iff hnew]
      push Not
      exact and_congr_right fun _ => or_iff_not_imp_left
    refine ⟨merged, changes, hmerge, hevolves.content_iff hnew, ?_, ?_, hevolves.below hnew,
      hevolves.covers hnew⟩
    · cases changes with
      | nil => exact .inr ⟨hversion, hnone.mp rfl⟩
      | cons change changes =>
        exact .inl ⟨hversion, not_not.mp fun h => absurd (hnone.mpr h) (List.cons_ne_nil _ _)⟩
    · intro hcontract
      rw [OrderedDict.keys, hentries, addedEntries, if_neg hcontract, List.append_nil, List.map_map]
      rfl

end

/-! ### One record -/

/-- The record that is inferred and forwarded: what `DISCARD_COLUMN` leaves of it. -/
def candidateOf (contract : SchemaContract) (schema : Schema) (record : Record) : Record :=
  if contract = .discardColumn then discardUnknownColumns record schema.columns.keys else record

/-- The fields that are merged. -/
def candidateFields (contract : SchemaContract) (schema : Schema) (record : Record) : Fields :=
  extractRecordFields (candidateOf contract schema record)

/-- The contract rejects a record of these fields. -/
def Rejects (contract : SchemaContract) (schema : Schema) (fields : Fields) : Prop :=
  (contract = .freeze ∧
      (Unknown schema fields ∨ Widens schema fields ∨ Clashes schema fields)) ∨
    (contract = .discardRow ∧ ¬ Conforms schema fields)

namespace SchemaProcessor

variable {H : Type} [DecidableEq H] (digest : SchemaContent → H)

/-- The schema of a record has its fields for columns. -/
theorem fieldColumns_inferRecordSchema (processor : SchemaProcessor) (candidate : Record) :
    FieldColumns (processor.inferRecordSchema candidate).columns (extractRecordFields candidate) :=
  fun name => processor.get?_inferRecordSchema candidate name

/-- What a candidate does: it is rejected and the schema stays, or it is merged and forwarded. -/
theorem processCandidate_spec (hdigest : Function.Injective digest) {processor : SchemaProcessor}
    {schema : Schema} (hschema : processor.currentSchema = some schema) (candidate : Record) :
    let fields := extractRecordFields candidate
    let rejects := processor.contract = .freeze ∧
      (Unknown schema fields ∨ Widens schema fields ∨ Clashes schema fields)
    ∃ next result, processor.processCandidate digest candidate = .ok (next, result) ∧
      next.contract = processor.contract ∧
      ((rejects ∧ next.currentSchema = some schema ∧ result.record = none) ∨
        (¬ rejects ∧ ∃ merged, next.currentSchema = some merged ∧
          result.record = some candidate ∧ Merged processor.contract schema fields merged)) := by
  intro fields rejects
  have hnew := processor.fieldColumns_inferRecordSchema candidate
  have hfits : Fits schema.columns (processor.inferRecordSchema candidate).columns ↔
      ¬ Unknown schema fields ∧ ¬ Widens schema fields ∧ ¬ Clashes schema fields := fits_iff hnew
  unfold processCandidate
  dsimp only
  rw [hschema]
  split
  next hempty =>
    have hnone : ∀ name, fields.get? name = none := by
      intro name
      have hcolumn := hnew name
      rw [OrderedDict.get?, List.isEmpty_iff.mp hempty] at hcolumn
      exact Option.map_eq_none_iff.mp hcolumn.symm
    refine ⟨_, _, rfl, rfl, .inr ⟨?_, schema, rfl, rfl, Merged.self fun name value hvalue => ?_⟩⟩
    · rintro ⟨-, ⟨name, value, hvalue, -⟩ | ⟨name, value, column, hvalue, -⟩ |
        ⟨name, value, column, hvalue, -⟩⟩
      all_goals exact absurd ((hnone name).symm.trans hvalue) (by simp)
    · exact absurd ((hnone name).symm.trans hvalue) (by simp)
  next hfields =>
    dsimp only
    by_cases hok : processor.contract ≠ .freeze ∨
        Fits schema.columns (processor.inferRecordSchema candidate).columns
    · obtain ⟨merged, changes, hmerge, hmerged⟩ := exists_merged digest hdigest hnew hok
      rw [hmerge]
      refine ⟨_, _, rfl, rfl, .inr ⟨?_, merged, rfl, rfl, hmerged⟩⟩
      rintro ⟨hfreeze, hrejects⟩
      obtain ⟨hunknown, hwidens, hclashes⟩ := hfits.mp (hok.resolve_left (not_not.mpr hfreeze))
      exact hrejects.elim hunknown (Or.rec hwidens hclashes)
    · obtain ⟨hfreeze, hnot⟩ := not_or.mp hok
      rw [not_not] at hfreeze
      have hne : schema.hash digest ≠ (processor.inferRecordSchema candidate).hash digest := by
        intro hhash
        exact hnot (fits_of_content_eq (hdigest hhash))
      obtain ⟨error, hmerge⟩ := merge_freeze digest hne hnot
      rw [hfreeze, hmerge]
      refine ⟨_, _, rfl, rfl, .inl ⟨⟨hfreeze, ?_⟩, rfl, rfl⟩⟩
      by_contra hnone
      rw [not_or, not_or] at hnone
      exact hnot (hfits.mpr hnone)

/-- What one record does: it is rejected and the schema stays, or it is merged and forwarded. -/
theorem process_spec (hdigest : Function.Injective digest) {processor : SchemaProcessor}
    {schema : Schema} (hschema : processor.currentSchema = some schema) (record : Record) :
    ∃ next result, processor.process digest record = .ok (next, result) ∧
      next.contract = processor.contract ∧
      ((Rejects processor.contract schema
            (candidateFields processor.contract schema record) ∧
          next.currentSchema = some schema ∧ result.record = none) ∨
        (¬ Rejects processor.contract schema
            (candidateFields processor.contract schema record) ∧
          ∃ merged, next.currentSchema = some merged ∧
            result.record = some (candidateOf processor.contract schema record) ∧
            Merged processor.contract schema
              (candidateFields processor.contract schema record) merged)) := by
  by_cases hviolates : processor.contract = .discardRow ∧ recordViolatesSchema record schema = true
  · refine ⟨processor, { record := none, schema := some schema }, ?_, rfl, .inl ⟨.inr ?_, hschema, rfl⟩⟩
    · rw [process, hschema]
      exact if_pos hviolates
    · refine ⟨hviolates.1, ?_⟩
      rw [candidateFields, candidateOf, if_neg (by simp [hviolates.1]), ← recordViolatesSchema_iff]
      exact hviolates.2
  · have hprocess : processor.process digest record =
        processor.processCandidate digest (candidateOf processor.contract schema record) := by
      rw [process, hschema, candidateOf]
      dsimp only
      rw [if_neg hviolates]
      split <;> rfl
    have hrejects : Rejects processor.contract schema
        (candidateFields processor.contract schema record) ↔ processor.contract = .freeze ∧
          (Unknown schema (candidateFields processor.contract schema record) ∨
            Widens schema (candidateFields processor.contract schema record) ∨
            Clashes schema (candidateFields processor.contract schema record)) := by
      refine or_iff_left ?_
      rintro ⟨hrow, hnot⟩
      rw [candidateFields, candidateOf, if_neg (by simp [hrow]), ← recordViolatesSchema_iff] at hnot
      exact hviolates ⟨hrow, hnot⟩
    obtain ⟨next, result, hok, hcontract, hcases⟩ := processCandidate_spec digest hdigest hschema
      (candidateOf processor.contract schema record)
    refine ⟨next, result, hprocess.trans hok, hcontract, ?_⟩
    rw [hrejects]
    exact hcases

end SchemaProcessor

end AgoraEtl.Schemas
