import AgoraEtl.Schema.Contracts
import Mathlib.Data.List.DropRight

/-!
# Generated Pydantic models

`schema_to_pydantic_model` gives each column a field that is named after it and aliased to it.  The
names are made into identifiers, and numbered where they clash, so that no two columns share a field
(`nodup_fieldNames`).  A field is read from its alias, and from its own name if the record has no such
alias, so that a column which is absent takes the value of a column that has the name of its field.  A
record that conforms to the schema comes back exactly if there is no such column and each value is of the
type that its column is annotated with (`dump_validate_iff`): a value of a class that `infer_python_type`
does not know conforms to a `string` column, but is no `str`.
-/

namespace AgoraEtl.Schemas

/-! ### Field names -/

/-- The Unicode properties of characters and words that the names depend on. -/
structure Unicode where
  isWord : Char → Bool
  isdigit : Char → Bool
  capitalize : String → String

/-- `keyword.kwlist`. -/
def kwlist : List String :=
  ["False", "None", "True", "and", "as", "assert", "async", "await", "break", "class", "continue",
    "def", "del", "elif", "else", "except", "finally", "for", "from", "global", "if", "import", "in",
    "is", "lambda", "nonlocal", "not", "or", "pass", "raise", "return", "try", "while", "with", "yield"]

/-- `re.sub(r"\W+", "_", name)`, in or after a run of characters that are in no word. -/
def subInvalid (isWord : Char → Bool) : Bool → List Char → List Char
  | _, [] => []
  | inRun, c :: cs =>
    if isWord c then c :: subInvalid isWord false cs
    else if inRun then subInvalid isWord true cs
    else '_' :: subInvalid isWord true cs

/-- `name.strip("_")`. -/
def stripUnderscores (name : List Char) : List Char :=
  (name.dropWhile (· == '_')).rdropWhile (· == '_')

/-- The identifier that the name of a column is made into. -/
def normalizedName (unicode : Unicode) (columnName : String) : String :=
  let stripped := stripUnderscores (subInvalid unicode.isWord false columnName.toList)
  let normalized := if stripped = [] then "field" else String.ofList stripped
  let normalized :=
    if normalized.toList.head?.any unicode.isdigit then "field_" ++ normalized else normalized
  if normalized ∈ kwlist then normalized ++ "_" else normalized

/-- `f"{normalized}_{suffix}"`. -/
def numberedName (normalized : String) (suffix : ℕ) : String :=
  normalized ++ "_" ++ suffix.repr

/-- The loop of `_python_field_name`, for so many rounds. -/
def unusedName (normalized : String) (usedNames : List String) : ℕ → ℕ → String → String
  | 0, _, fieldName => fieldName
  | rounds + 1, suffix, fieldName =>
    if fieldName ∈ usedNames then
      unusedName normalized usedNames rounds (suffix + 1) (numberedName normalized suffix)
    else fieldName

/-- `_python_field_name`. -/
def pythonFieldName (unicode : Unicode) (columnName : String) (usedNames : List String) : String :=
  let normalized := normalizedName unicode columnName
  -- One of so many names is not among the used ones (`unusedName_not_mem`).
  unusedName normalized usedNames (usedNames.length + 1) 2 normalized

/-- The names of the fields beside those of their columns, as the loop over the columns gives them. -/
def fieldNames (unicode : Unicode) : List String → List String → List (String × String)
  | [], _ => []
  | columnName :: rest, usedNames =>
    let fieldName := pythonFieldName unicode columnName usedNames
    (fieldName, columnName) :: fieldNames unicode rest (fieldName :: usedNames)

theorem numberedName_injective (normalized : String) : (numberedName normalized).Injective := by
  intro suffix suffix' h
  have hrepr : suffix.repr.toList = suffix'.repr.toList := by
    simpa [numberedName, ← String.toList_inj] using h
  rw [Nat.toList_repr, Nat.toList_repr] at hrepr
  rw [← Nat.ofDigitChars_ten_toDigits (n := suffix), hrepr, Nat.ofDigitChars_ten_toDigits]

/-- If the loop ends with a used name, it has only seen used names. -/
theorem mem_of_unusedName_mem {normalized : String} {usedNames : List String} {rounds suffix : ℕ}
    {fieldName : String} (h : unusedName normalized usedNames rounds suffix fieldName ∈ usedNames) :
    fieldName ∈ usedNames ∧ ∀ i < rounds, numberedName normalized (suffix + i) ∈ usedNames := by
  induction rounds generalizing suffix fieldName with
  | zero => exact ⟨h, fun i hi => absurd hi i.not_lt_zero⟩
  | succ rounds ih =>
    unfold unusedName at h
    split at h
    next hused =>
      obtain ⟨hfirst, hrest⟩ := ih h
      refine ⟨hused, fun i hi => ?_⟩
      cases i with
      | zero => exact hfirst
      | succ i => simpa [Nat.add_assoc, Nat.add_comm 1 i] using hrest i (Nat.lt_of_succ_lt_succ hi)
    next hfree => exact absurd h hfree

/-- The loop ends with a name that is not used. -/
theorem unusedName_not_mem (normalized : String) (usedNames : List String) (suffix : ℕ)
    (fieldName : String) :
    unusedName normalized usedNames (usedNames.length + 1) suffix fieldName ∉ usedNames := by
  intro h
  have hseen : (List.range (usedNames.length + 1)).map (fun i => numberedName normalized (suffix + i))
      ⊆ usedNames := by
    intro name hname
    obtain ⟨i, hi, rfl⟩ := List.mem_map.mp hname
    exact (mem_of_unusedName_mem h).2 i (List.mem_range.mp hi)
  have hdistinct : ((List.range (usedNames.length + 1)).map
      fun i => numberedName normalized (suffix + i)).Nodup :=
    List.nodup_range.map ((numberedName_injective normalized).comp fun _ _ => Nat.add_left_cancel)
  have hlength := (List.subperm_of_subset hdistinct hseen).length_le
  rw [List.length_map, List.length_range] at hlength
  omega

theorem pythonFieldName_not_mem (unicode : Unicode) (columnName : String) (usedNames : List String) :
    pythonFieldName unicode columnName usedNames ∉ usedNames :=
  unusedName_not_mem _ _ _ _

@[simp]
theorem map_snd_fieldNames (unicode : Unicode) (names usedNames : List String) :
    (fieldNames unicode names usedNames).map Prod.snd = names := by
  induction names generalizing usedNames with
  | nil => rfl
  | cons name names ih =>
    unfold fieldNames
    rw [List.map_cons, ih]

/-- The fields are told apart by their names, and no name is used already. -/
theorem nodup_fieldNames (unicode : Unicode) (names usedNames : List String) :
    ((fieldNames unicode names usedNames).map Prod.fst).Nodup ∧
      ∀ entry ∈ fieldNames unicode names usedNames, entry.1 ∉ usedNames := by
  induction names generalizing usedNames with
  | nil => exact ⟨List.nodup_nil, fun entry h => absurd h List.not_mem_nil⟩
  | cons name names ih =>
    obtain ⟨hnodup, hunused⟩ := ih (pythonFieldName unicode name usedNames :: usedNames)
    unfold fieldNames
    rw [List.map_cons, List.nodup_cons]
    refine ⟨⟨?_, hnodup⟩, ?_⟩
    · intro hmem
      obtain ⟨entry, hentry, hname⟩ := List.mem_map.mp hmem
      exact hunused entry hentry (hname ▸ List.mem_cons_self)
    · intro entry hentry
      rcases List.mem_cons.mp hentry with rfl | hrest
      · exact pythonFieldName_not_mem unicode name usedNames
      · exact fun hused => hunused entry hrest (List.mem_cons_of_mem _ hused)

/-! ### Models -/

/-- The Python types of the fields. -/
inductive PyType where
  | str
  | int
  | float
  | bool
  | datetimeOrDate
  | dictOrList
  | bytes
  | any
  deriving DecidableEq, Repr

/-- The annotation of a field: a type, or that type or `None`. -/
structure AnnotatedType where
  base : PyType
  optional : Bool
  deriving DecidableEq, Repr

/-- `_python_type_for_data_type`. -/
def pythonTypeForDataType : DataType → PyType
  | .string => .str
  | .integer => .int
  | .float => .float
  | .boolean => .bool
  | .timestamp => .datetimeOrDate
  | .json => .dictOrList
  | .bytes => .bytes
  | .null => .any

/-- `_annotation_for_column`. -/
def annotationForColumn (column : Column) : AnnotatedType :=
  if column.nullable ∧ column.dataType ≠ .null then ⟨pythonTypeForDataType column.dataType, true⟩
  else if column.dataType = .null then ⟨.any, true⟩
  else ⟨pythonTypeForDataType column.dataType, false⟩

/-- A field of a model; it is required if it has no default. -/
structure FieldInfo where
  annotated : AnnotatedType
  default : Option PyValue
  fieldAlias : String
  serializationAlias : String

/-- What a model is created from. -/
structure Model where
  name : String
  populateByName : Bool
  fields : OrderedDict String FieldInfo

/-- `_default_model_name`. -/
def defaultModelName (unicode : Unicode) (table : String) : String :=
  let words := (table.toList.map fun c => if c = '.' then '_' else c).splitOnP (!unicode.isWord ·)
  let base := String.join
    ((words.filter (· ≠ [])).map fun word => unicode.capitalize (String.ofList word))
  (if base = "" then "InferredSchema" else base) ++ "Model"

/-- `Schema.column_names`. -/
def Schema.columnNames (schema : Schema) : List String := schema.columns.keys.insertionSort (· ≤ ·)

/-- The field of a column. -/
def fieldOfColumn (columnName : String) (column : Column) : FieldInfo where
  annotated := annotationForColumn column
  default := if column.nullable then some .none else none
  fieldAlias := columnName
  serializationAlias := columnName

/-- The fields of a schema, in the order of its sorted columns. -/
def namedFields (unicode : Unicode) (schema : Schema) : List (String × FieldInfo) :=
  (fieldNames unicode schema.columnNames []).filterMap fun (fieldName, columnName) =>
    (schema.columns.get? columnName).map fun column => (fieldName, fieldOfColumn columnName column)

/-- `schema_to_pydantic_model`. -/
def schemaToPydanticModel (unicode : Unicode) (schema : Schema) (modelName : Option String) :
    Model where
  name := ((modelName.filter (· ≠ ""))).getD (defaultModelName unicode schema.table)
  populateByName := true
  fields := .ofEntries (namedFields unicode schema)

/-! ### Validation by alias or by name -/

/-- `isinstance(value, str)`. -/
def PyValue.isStr : PyValue → Bool
  | .str _ => true
  | _ => false

/-- The values of a type. -/
def PyType.has : PyType → PyValue → Bool
  | .str, .str _ => true
  | .int, .int _ => true
  | .float, .float _ => true
  | .bool, .bool _ => true
  | .datetimeOrDate, .datetime _ => true
  | .datetimeOrDate, .date _ => true
  | .dictOrList, .dict items => items.all fun item => item.1.isStr
  | .dictOrList, .list _ => true
  | .bytes, .bytes _ => true
  | .any, _ => true
  | _, _ => false

/-- The values of an annotated type. -/
def AnnotatedType.has (annotated : AnnotatedType) : PyValue → Bool
  | .none => annotated.optional || annotated.base.has .none
  | value => annotated.base.has value

/-- How Pydantic validates a value against the type of a field: the values of the type are valid as they
are, any other one is refused or made into a value of the type, and nothing but `None` is made into
`None`. -/
structure Validator where
  validate : AnnotatedType → PyValue → Option PyValue
  validate_eq_some {annotated : AnnotatedType} {value : PyValue} :
    annotated.has value = true → validate annotated value = some value
  has_of_validate {annotated : AnnotatedType} {value result : PyValue} :
    validate annotated value = some result → annotated.has result = true
  eq_none_of_validate {annotated : AnnotatedType} {value : PyValue} :
    validate annotated value = some .none → value = .none

/-- The input of a field: under its alias, or else under its name. -/
def FieldInfo.input (info : FieldInfo) (populateByName : Bool) (fieldName : String)
    (record : OrderedDict String PyValue) : Option PyValue :=
  match record.get? info.fieldAlias with
  | some value => some value
  | none => if populateByName then record.get? fieldName else none

/-- The valid value of a field; a field without an input has its default. -/
def FieldInfo.value (validator : Validator) (info : FieldInfo) (populateByName : Bool)
    (fieldName : String) (record : OrderedDict String PyValue) : Option PyValue :=
  match info.input populateByName fieldName record with
  | some input => validator.validate info.annotated input
  | none => info.default

namespace Model

/-- `model_validate`: the values of the fields, if all are valid. -/
def modelValidate (validator : Validator) (self : Model) (record : OrderedDict String PyValue) :
    Option (OrderedDict String PyValue) :=
  if self.fields.entries.all fun (fieldName, info) =>
      (info.value validator self.populateByName fieldName record).isSome then
    some (self.fields.mapWithKey fun fieldName info =>
      (info.value validator self.populateByName fieldName record).getD .none)
  else none

/-- `model_dump(by_alias=True)`. -/
def modelDump (self : Model) (values : OrderedDict String PyValue) : OrderedDict String PyValue :=
  .ofEntries (self.fields.entries.map fun (fieldName, info) =>
    (info.serializationAlias, (values.get? fieldName).getD .none))

end Model

/-- A record with all columns of a schema, `None` where it has no value. -/
def completed (schema : Schema) (record : OrderedDict String PyValue) : OrderedDict String PyValue :=
  .ofEntries (schema.columnNames.map fun columnName =>
    (columnName, (record.get? columnName).getD .none))

/-- A record has all columns that may not be `None`. -/
def HasRequired (schema : Schema) (record : Fields) : Prop :=
  ∀ columnName column, schema.columns.get? columnName = some column →
    record.get? columnName = none → column.nullable = true

/-- A value that conforms to a column can stay as it is: it is not of a class without a type of its own,
not a dictionary with keys that are no texts, and `None` only where the column may be. -/
def Typed (column : Column) : PyValue → Prop
  | .none => column.nullable = true ∨ column.dataType = .null
  | .dict items => ∀ item ∈ items, item.1.isStr = true
  | .other _ => False
  | _ => True

/-- A column that may be `None` is annotated so. -/
theorem has_none_iff {column : Column} :
    (annotationForColumn column).has .none = true ↔
      column.nullable = true ∨ column.dataType = .null := by
  unfold annotationForColumn
  cases column.nullable <;> cases column.dataType <;> decide

/-- Of the values that conform to a column, those that can stay are of the annotated type. -/
theorem has_iff_typed {column : Column} {value : PyValue}
    (h : inferPythonType value = .null ∨ inferPythonType value = column.dataType) :
    (annotationForColumn column).has value = true ↔ Typed column value := by
  obtain ⟨name, dataType, nullable, inferredFrom⟩ := column
  cases value with
  | none => exact has_none_iff
  | dict items =>
    obtain rfl : DataType.json = dataType := h.resolve_left nofun
    cases nullable <;> exact List.all_eq_true
  | other repr =>
    obtain rfl : DataType.string = dataType := h.resolve_left nofun
    cases nullable <;> exact iff_of_false nofun id
  | _ =>
    obtain rfl := h.resolve_left nofun
    cases nullable <;> exact iff_of_true rfl trivial

section Fields

variable {unicode : Unicode} {schema : Schema} {modelName : Option String}

theorem mem_columnNames {columnName : String} :
    columnName ∈ schema.columnNames ↔ ∃ column, schema.columns.get? columnName = some column := by
  rw [Schema.columnNames, List.mem_insertionSort, ← not_iff_not, ← OrderedDict.get?_eq_none_iff,
    Option.eq_none_iff_forall_ne_some, not_exists]

theorem nodup_columnNames : schema.columnNames.Nodup :=
  (List.perm_insertionSort _ _).nodup_iff.mpr schema.columns.nodup

/-- Every column has a field. -/
theorem namedFields_spec (unicode : Unicode) (schema : Schema) : ∃ columns : String → Column,
    (∀ columnName ∈ schema.columnNames, schema.columns.get? columnName = some (columns columnName)) ∧
      namedFields unicode schema = (fieldNames unicode schema.columnNames []).map
        fun entry => (entry.1, fieldOfColumn entry.2 (columns entry.2)) := by
  have hcolumns : ∀ columnName, ∃ column, columnName ∈ schema.columnNames →
      schema.columns.get? columnName = some column := by
    intro columnName
    by_cases hmem : columnName ∈ schema.columnNames
    · obtain ⟨column, hcolumn⟩ := mem_columnNames.mp hmem
      exact ⟨column, fun _ => hcolumn⟩
    · exact ⟨⟨columnName, .null, true, 0⟩, fun h => absurd h hmem⟩
  choose columns hget using hcolumns
  refine ⟨columns, hget, ?_⟩
  rw [namedFields, ← List.filterMap_eq_map]
  refine List.filterMap_congr fun entry hentry => ?_
  have hname : entry.2 ∈ schema.columnNames := by
    rw [← map_snd_fieldNames unicode schema.columnNames []]
    exact List.mem_map_of_mem hentry
  simp [hget entry.2 hname]

theorem entries_fields_schemaToPydanticModel (modelName : Option String) :
    (schemaToPydanticModel unicode schema modelName).fields.entries = namedFields unicode schema := by
  obtain ⟨columns, _, hfields⟩ := namedFields_spec unicode schema
  refine (OrderedDict.entries_update_of_nodup ?_).trans (List.nil_append _)
  simpa [hfields, Function.comp_def] using (nodup_fieldNames unicode schema.columnNames []).1

variable {validator : Validator} {record : Fields}

/-- The value of a column is read back if it is of the annotated type, or absent and its field is not
found under its name, either. -/
theorem value_fieldOfColumn_iff (hconforms : Conforms schema record) (hrequired : HasRequired schema record)
    {columnName : String} {column : Column} (hcolumn : schema.columns.get? columnName = some column)
    (fieldName : String) :
    (fieldOfColumn columnName column).value validator true fieldName record =
        some ((record.get? columnName).getD .none) ↔
      (∀ value, record.get? columnName = some value → Typed column value) ∧
        (record.get? columnName = none → (record.get? fieldName).getD .none = .none) := by
  unfold FieldInfo.value FieldInfo.input fieldOfColumn
  rcases hvalue : record.get? columnName with _ | value
  · have hnullable := hrequired columnName column hcolumn hvalue
    rcases hother : record.get? fieldName with _ | other
    · simp [hnullable]
    · simp only [if_true, Option.getD_none, Option.getD_some, forall_const, reduceCtorEq,
        false_implies, implies_true, true_and]
      constructor
      · exact validator.eq_none_of_validate
      · rintro rfl
        exact validator.validate_eq_some (has_none_iff.mpr (.inl hnullable))
  · obtain ⟨column', hcolumn', htype⟩ := hconforms columnName value hvalue
    obtain rfl := Option.some.inj (hcolumn.symm.trans hcolumn')
    have hkept : validator.validate (annotationForColumn column) value = some value ↔
        Typed column value := by
      rw [← has_iff_typed htype]
      exact ⟨validator.has_of_validate, validator.validate_eq_some⟩
    simpa using hkept

/-- The aliases of the fields are the columns. -/
theorem map_serializationAlias_namedFields (unicode : Unicode) :
    (namedFields unicode schema).map (·.2.serializationAlias) = schema.columnNames := by
  obtain ⟨columns, _, hfields⟩ := namedFields_spec unicode schema
  rw [hfields, List.map_map]
  exact map_snd_fieldNames unicode schema.columnNames []

theorem completed_eq (unicode : Unicode) : completed schema record =
    .ofEntries ((namedFields unicode schema).map fun entry => (entry.2.serializationAlias,
      (record.get? entry.2.serializationAlias).getD .none)) := by
  rw [completed, ← map_serializationAlias_namedFields unicode, List.map_map]
  rfl

/-- A valid record is dumped as the values of the fields. -/
theorem modelDump_mapWithKey (value : String → FieldInfo → PyValue) :
    (schemaToPydanticModel unicode schema modelName).modelDump
        ((schemaToPydanticModel unicode schema modelName).fields.mapWithKey value) =
      .ofEntries ((namedFields unicode schema).map fun entry => (entry.2.serializationAlias,
        value entry.1 entry.2)) := by
  unfold Model.modelDump
  rw [entries_fields_schemaToPydanticModel]
  refine congrArg _ (List.map_congr_left fun ⟨fieldName, info⟩ hentry => ?_)
  rw [← entries_fields_schemaToPydanticModel modelName,
    OrderedDict.mem_entries_iff] at hentry
  dsimp only
  rw [OrderedDict.get?_mapWithKey, hentry]
  rfl

/-- A record comes back if the value of each field is that of its column. -/
theorem modelDump_eq_completed_iff :
    ((schemaToPydanticModel unicode schema modelName).modelValidate validator record).map
        (schemaToPydanticModel unicode schema modelName).modelDump = some (completed schema record) ↔
      ∀ entry ∈ namedFields unicode schema, entry.2.value validator true entry.1 record =
        some ((record.get? entry.2.serializationAlias).getD .none) := by
  have hdistinct : ((namedFields unicode schema).map (·.2.serializationAlias)).Nodup := by
    rw [map_serializationAlias_namedFields]
    exact nodup_columnNames
  unfold Model.modelValidate
  rw [entries_fields_schemaToPydanticModel, completed_eq unicode]
  split
  next hvalid =>
    rw [List.all_eq_true] at hvalid
    rw [Option.map_some, modelDump_mapWithKey, Option.some.injEq,
      OrderedDict.ofEntries_map_eq_iff hdistinct]
    refine forall₂_congr fun entry hentry => ?_
    obtain ⟨value, hvalue⟩ := Option.isSome_iff_exists.mp (hvalid entry hentry)
    have hvalue' : entry.2.value validator true entry.1 record = some value := hvalue
    rw [hvalue, hvalue', Option.getD_some, Option.some.injEq]
  next hinvalid =>
    rw [Option.map_none]
    refine iff_of_false (by simp) fun hall => hinvalid (List.all_eq_true.mpr fun entry hentry => ?_)
    exact Option.isSome_iff_exists.mpr ⟨_, hall entry hentry⟩

/-- A record that conforms comes back with its absent columns as `None` exactly if its values are of the
annotated types and no absent column has a field of the name of a column that is present and not
`None`. -/
theorem dump_validate_iff (hconforms : Conforms schema record) (hrequired : HasRequired schema record) :
    ((schemaToPydanticModel unicode schema modelName).modelValidate validator record).map
        (schemaToPydanticModel unicode schema modelName).modelDump = some (completed schema record) ↔
      (∀ columnName column value, schema.columns.get? columnName = some column →
        record.get? columnName = some value → Typed column value) ∧
      ∀ entry ∈ fieldNames unicode schema.columnNames [],
        record.get? entry.2 = none → (record.get? entry.1).getD .none = .none := by
  obtain ⟨columns, hcolumns, hfields⟩ := namedFields_spec unicode schema
  have hname : ∀ entry ∈ fieldNames unicode schema.columnNames [], entry.2 ∈ schema.columnNames := by
    intro entry hentry
    rw [← map_snd_fieldNames unicode schema.columnNames []]
    exact List.mem_map_of_mem hentry
  have hread : ∀ entry ∈ fieldNames unicode schema.columnNames [],
      (fieldOfColumn entry.2 (columns entry.2)).value validator true entry.1 record =
          some ((record.get? entry.2).getD .none) ↔
        (∀ value, record.get? entry.2 = some value → Typed (columns entry.2) value) ∧
          (record.get? entry.2 = none → (record.get? entry.1).getD .none = .none) := fun entry hentry =>
    value_fieldOfColumn_iff hconforms hrequired (hcolumns entry.2 (hname entry hentry)) entry.1
  rw [modelDump_eq_completed_iff, hfields, List.forall_mem_map]
  constructor
  · intro h
    refine ⟨fun columnName column value hcolumn hvalue => ?_, fun entry hentry =>
      ((hread entry hentry).mp (h entry hentry)).2⟩
    -- every column has a field
    have hmem : columnName ∈ (fieldNames unicode schema.columnNames []).map Prod.snd := by
      rw [map_snd_fieldNames]
      exact mem_columnNames.mpr ⟨column, hcolumn⟩
    obtain ⟨entry, hentry, rfl⟩ := List.mem_map.mp hmem
    obtain rfl := Option.some.inj (hcolumn.symm.trans (hcolumns entry.2 (hname entry hentry)))
    exact ((hread entry hentry).mp (h entry hentry)).1 value hvalue
  · rintro ⟨htyped, hclear⟩ entry hentry
    refine (hread entry hentry).mpr ⟨fun value hvalue => ?_, hclear entry hentry⟩
    exact htyped entry.2 _ value (hcolumns entry.2 (hname entry hentry)) hvalue

end Fields

/-! ### Two columns of one normal form -/

/-- The characters and words of ASCII. -/
def ascii : Unicode := ⟨fun c => c.isAlphanum || c == '_', Char.isDigit, String.capitalize⟩

/-- A validator that takes nothing but the values of a type. -/
def exactValidator : Validator where
  validate annotated value := if annotated.has value then some value else none
  validate_eq_some h := if_pos h
  has_of_validate h := by
    obtain ⟨hhas, hsame⟩ := Option.ite_none_right_eq_some.mp h
    exact Option.some.inj hsame ▸ hhas
  eq_none_of_validate h := Option.some.inj (Option.ite_none_right_eq_some.mp h).2

/-- Two columns whose names are made into the same identifier. -/
def clashing : Schema where
  table := "events"
  columns := .ofEntries [("a-b", { name := "a-b", dataType := .integer }),
    ("a_b", { name := "a_b", dataType := .integer })]

/-- A record with the second column alone. -/
def secondColumn : OrderedDict String PyValue := .ofEntries [("a_b", .int 1)]

/-- A record with the first column alone. -/
def firstColumn : OrderedDict String PyValue := .ofEntries [("a-b", .int 1)]

theorem fieldNames_clashing :
    fieldNames ascii clashing.columnNames [] = [("a_b", "a-b"), ("a_b_2", "a_b")] := by
  decide +kernel

/-- All columns are optional integers. -/
theorem columns_clashing {columnName : String} {column : Column}
    (h : clashing.columns.get? columnName = some column) :
    column.dataType = .integer ∧ column.nullable = true := by
  have hmem : (columnName, column) ∈ [("a-b", ({ name := "a-b", dataType := .integer } : Column)),
      ("a_b", { name := "a_b", dataType := .integer })] := OrderedDict.mem_entries_iff.mpr h
  rcases List.mem_pair.mp hmem with hfirst | hsecond
  · obtain ⟨_, rfl⟩ := Prod.mk.inj hfirst
    exact ⟨rfl, rfl⟩
  · obtain ⟨_, rfl⟩ := Prod.mk.inj hsecond
    exact ⟨rfl, rfl⟩

/-- No column is required. -/
theorem hasRequired_clashing (record : Fields) : HasRequired clashing record :=
  fun _ _ hcolumn _ => (columns_clashing hcolumn).2

/-- A record of one column conforms if it has an integer. -/
theorem conforms_clashing {columnName : String} (n : ℤ)
    (h : (clashing.columns.get? columnName).isSome) :
    Conforms clashing (.ofEntries [(columnName, .int n)]) := by
  intro name value hvalue
  obtain ⟨rfl, rfl⟩ : name = columnName ∧ value = .int n :=
    Prod.mk.inj (List.mem_singleton.mp (OrderedDict.mem_entries_iff.mpr hvalue))
  obtain ⟨column, hcolumn⟩ := Option.isSome_iff_exists.mp h
  exact ⟨column, hcolumn, .inr (columns_clashing hcolumn).1.symm⟩

/-- The value of the second column is read as that of the first, too. -/
theorem not_dump_validate_clashing :
    (Conforms clashing secondColumn ∧ HasRequired clashing secondColumn) ∧
    ((schemaToPydanticModel ascii clashing none).modelValidate exactValidator secondColumn).map
        (schemaToPydanticModel ascii clashing none).modelDump =
      some (.ofEntries [("a-b", .int 1), ("a_b", .int 1)]) ∧
    (completed clashing secondColumn).get? "a-b" = some .none :=
  ⟨⟨conforms_clashing 1 rfl, hasRequired_clashing _⟩, rfl, rfl⟩

/-- A record with the first column alone comes back. -/
theorem dump_validate_iff_firstColumn :
    ((schemaToPydanticModel ascii clashing none).modelValidate exactValidator firstColumn).map
        (schemaToPydanticModel ascii clashing none).modelDump =
      some (completed clashing firstColumn) := by
  refine (dump_validate_iff (conforms_clashing 1 rfl) (hasRequired_clashing _)).mpr ⟨?_, ?_⟩
  · intro columnName column value _ hvalue
    obtain ⟨-, rfl⟩ : columnName = "a-b" ∧ value = .int 1 :=
      Prod.mk.inj (List.mem_singleton.mp (OrderedDict.mem_entries_iff.mpr hvalue))
    exact trivial
  · rw [fieldNames_clashing]
    intro entry hentry habsent
    rcases List.mem_pair.mp hentry with rfl | rfl
    · rfl
    · rfl

/-- A price whose class has no type of its own. -/
def prices : Schema where
  table := "sales"
  columns := .ofEntries [("price", { name := "price", dataType := .string })]

/-- The price conforms to the column of texts, but is not validated. -/
example : recordViolatesSchema (.dict (.ofEntries [("price", .other "Decimal('1.50')")])) prices = false ∧
    ((schemaToPydanticModel ascii prices none).modelValidate exactValidator
      (.ofEntries [("price", .other "Decimal('1.50')")])).isNone :=
  ⟨rfl, rfl⟩

end AgoraEtl.Schemas
