import AgoraEtl.Schema.Types
import Mathlib.Data.Multiset.Lattice

/-!
# Inference of schemas

`SchemaInferrer` looks at records one at a time. The column of a name holds the supremum of the types
of the values that were seen under it and their number, in whatever order they came.
-/

namespace AgoraEtl.Schemas

/-! ### Records -/

/-- The fields of a record, by name. -/
abbrev Fields : Type := OrderedDict String PyValue

/-- A record: a dictionary, or an object that may have `model_dump` and may have `__dict__`. -/
inductive Record where
  | dict (fields : Fields)
  | object (modelDump : Option (Option Fields → Fields)) (attributes : Option Fields)

/-- `extract_record_fields`. -/
def extractRecordFields : Record → Fields
  | .dict fields => fields
  | .object (some modelDump) attributes => modelDump attributes
  | .object none (some attributes) => attributes
  | .object none none => OrderedDict.empty

/-! ### The inferrer -/

/-- `SchemaInferrer`. -/
structure SchemaInferrer where
  table : String
  columns : OrderedDict String Column
  recordsObserved : ℕ

namespace SchemaInferrer

def init (table : String) : SchemaInferrer := ⟨table, OrderedDict.empty, 0⟩

/-- `_widen_column_type`. -/
def widenColumnType (current new : DataType) : DataType :=
  if current = new then current
  else if current = .null then new
  else if new = .null then current
  else if current = .integer ∧ new = .float then .float
  else if current = .float ∧ new = .integer then .float
  else .string

/-- `_observe_field`, on the columns. -/
def observeField (columns : OrderedDict String Column) (name : String) (value : PyValue) :
    OrderedDict String Column :=
  let inferredType := inferPythonType value
  match columns.get? name with
  | none =>
    columns.set name { name := name, dataType := inferredType, nullable := true, inferredFrom := 1 }
  | some column =>
    columns.set name
      { column with
        inferredFrom := column.inferredFrom + 1
        nullable := if inferredType = .null then true else column.nullable
        dataType :=
          if inferredType ≠ column.dataType then widenColumnType column.dataType inferredType
          else column.dataType }

/-- `observe`. -/
def observe (inferrer : SchemaInferrer) (record : Record) : SchemaInferrer where
  table := inferrer.table
  columns := (extractRecordFields record).entries.foldl
    (fun columns field => observeField columns field.1 field.2) inferrer.columns
  recordsObserved := inferrer.recordsObserved + 1

/-- `finalize`. -/
def finalize (inferrer : SchemaInferrer) : Schema where
  table := inferrer.table
  columns := inferrer.columns
  version := 1

/-- `reset`. -/
def reset (inferrer : SchemaInferrer) : SchemaInferrer :=
  { inferrer with columns := OrderedDict.empty, recordsObserved := 0 }

end SchemaInferrer

/-- `infer_schema`. -/
def inferSchema (records : List Record) (table : String) : Schema :=
  (records.foldl SchemaInferrer.observe (SchemaInferrer.init table)).finalize

/-! ### What is inferred -/

/-- The types of the values under a name, in the order of the records. -/
def observedTypes (name : String) (records : List Record) : List DataType :=
  records.filterMap fun record => ((extractRecordFields record).get? name).map inferPythonType

/-- The least type that all the types can be widened to. -/
def joined (types : List DataType) : DataType := (types : Multiset DataType).sup

/-- No type is the least one. -/
@[simp]
theorem joined_nil : joined [] = ⊥ := rfl

/-- The first type is joined with the others. -/
@[simp]
theorem joined_cons (type : DataType) (types : List DataType) :
    joined (type :: types) = type ⊔ joined types := by
  rw [joined, ← Multiset.cons_coe, Multiset.sup_cons]
  rfl

/-- Types are joined in parts. -/
@[simp]
theorem joined_append (types later : List DataType) :
    joined (types ++ later) = joined types ⊔ joined later := by
  rw [joined, ← Multiset.coe_add, Multiset.sup_add]
  rfl

/-- Their order does not matter. -/
theorem joined_perm {types later : List DataType} (h : types.Perm later) :
    joined types = joined later := by
  rw [joined, Multiset.coe_eq_coe.mpr h]
  rfl

/-- The column of a name with the types of its values: there is none without a value. -/
def columnOf (name : String) (types : List DataType) : Option Column :=
  if types = [] then none
  else some { name := name, dataType := joined types, nullable := true,
              inferredFrom := types.length }

namespace SchemaInferrer

/-- A column is widened to the join. -/
theorem widenColumnType_eq_sup (current new : DataType) :
    widenColumnType current new = current ⊔ new := rfl

/-- A value under a name adds its type to those of the column. -/
theorem get?_observeField {columns : OrderedDict String Column} {name : String}
    {types : List DataType} (hcolumn : columns.get? name = columnOf name types) (value : PyValue) :
    (observeField columns name value).get? name =
      columnOf name (types ++ [inferPythonType value]) := by
  unfold observeField
  rw [hcolumn]
  unfold columnOf
  rw [if_neg (List.append_ne_nil_of_right_ne_nil types (List.cons_ne_nil _ _))]
  by_cases hnone : types = []
  · subst hnone
    rw [if_pos rfl]
    simp
  · rw [if_neg hnone]
    simp only [OrderedDict.get?_set_self, Option.some.injEq, Column.mk.injEq, true_and]
    refine ⟨?_, ?_, ?_⟩
    · rw [joined_append, joined_cons, joined_nil, sup_bot_eq]
      by_cases hsame : inferPythonType value = joined types
      · simp [hsame]
      · rw [if_pos hsame]
        exact widenColumnType_eq_sup _ _
    · simp
    · simp

/-- A field leaves the columns of other names. -/
theorem get?_observeField_of_ne {columns : OrderedDict String Column} {name name' : String}
    (h : name ≠ name') (value : PyValue) :
    (observeField columns name' value).get? name = columns.get? name := by
  unfold observeField
  split
  next hnone => exact columns.get?_set_of_ne _ h
  next column hsome => exact columns.get?_set_of_ne _ h

/-- So do fields of other names. -/
theorem get?_observeFields_of_not_mem {name : String} {fields : List (String × PyValue)}
    (h : name ∉ fields.map Prod.fst) (columns : OrderedDict String Column) :
    (fields.foldl (fun columns field => observeField columns field.1 field.2) columns).get? name =
      columns.get? name := by
  induction fields generalizing columns with
  | nil => rfl
  | cons field fields ih =>
    rw [List.map_cons, List.mem_cons, not_or] at h
    rw [List.foldl_cons, ih h.2, get?_observeField_of_ne h.1]

/-- The fields of a record add their types to the columns. -/
theorem get?_observeFields {name : String} {types : List DataType}
    {fields : List (String × PyValue)} (hnodup : (fields.map Prod.fst).Nodup)
    {columns : OrderedDict String Column} (hcolumn : columns.get? name = columnOf name types) :
    (fields.foldl (fun columns field => observeField columns field.1 field.2) columns).get? name =
      columnOf name (types ++ ((fields.lookup name).map inferPythonType).toList) := by
  induction fields generalizing columns with
  | nil => simpa using hcolumn
  | cons field fields ih =>
    obtain ⟨first, value⟩ := field
    rw [List.map_cons, List.nodup_cons] at hnodup
    rw [List.foldl_cons, OrderedDict.lookup_cons_eq_ite]
    by_cases hname : name = first
    · -- the name does not come again
      subst hname
      rw [if_pos rfl, get?_observeFields_of_not_mem hnodup.1, get?_observeField hcolumn]
      rfl
    · rw [if_neg hname]
      exact ih hnodup.2 ((get?_observeField_of_ne hname value).trans hcolumn)

/-- A record adds the type of its value under the name, if it has one. -/
theorem get?_observe {inferrer : SchemaInferrer} {name : String} {types : List DataType}
    (hcolumn : inferrer.columns.get? name = columnOf name types) (record : Record) :
    (inferrer.observe record).columns.get? name =
      columnOf name (types ++ observedTypes name [record]) := by
  have htypes : observedTypes name [record] =
      (((extractRecordFields record).entries.lookup name).map inferPythonType).toList := by
    rw [observedTypes, List.filterMap_cons, List.filterMap_nil, OrderedDict.get?]
    cases (extractRecordFields record).entries.lookup name <;> rfl
  rw [htypes]
  exact get?_observeFields (extractRecordFields record).nodup hcolumn

end SchemaInferrer

/-- The types of the first record come first. -/
theorem observedTypes_cons (name : String) (record : Record) (records : List Record) :
    observedTypes name (record :: records) =
      (((extractRecordFields record).get? name).map inferPythonType).toList ++
        observedTypes name records := by
  rw [observedTypes, List.filterMap_cons]
  cases ((extractRecordFields record).get? name).map inferPythonType <;> rfl

/-- The types of two lists of records follow one another. -/
theorem observedTypes_append (name : String) (records later : List Record) :
    observedTypes name (records ++ later) =
      observedTypes name records ++ observedTypes name later := List.filterMap_append

/-- The types are reordered with the records. -/
theorem observedTypes_perm (name : String) {records later : List Record}
    (h : records.Perm later) : (observedTypes name records).Perm (observedTypes name later) :=
  h.filterMap _

/-- The column of a name is that of the types of its values. -/
theorem get?_inferSchema (records : List Record) (table name : String) :
    (inferSchema records table).columns.get? name = columnOf name (observedTypes name records) := by
  have hfold : ∀ (inferrer : SchemaInferrer) (types : List DataType),
      inferrer.columns.get? name = columnOf name types →
      (records.foldl SchemaInferrer.observe inferrer).columns.get? name =
        columnOf name (types ++ observedTypes name records) := by
    induction records with
    | nil => exact fun inferrer types h => by simpa [observedTypes] using h
    | cons record records ih =>
      intro inferrer types h
      rw [List.foldl_cons, ih _ _ (SchemaInferrer.get?_observe h record), List.append_assoc,
        ← observedTypes_append, List.singleton_append]
  exact hfold (SchemaInferrer.init table) [] rfl

end AgoraEtl.Schemas
