import AgoraEtl.Schema.Types

/-!
# Stored schemas

A schema is stored as a dictionary with its digest.  What is read back is the schema that was stored
(`fromDict_toDict`); if the stored digest is another, the strict reading of a store for `FREEZE`
raises, and other stores only log it.
-/

namespace AgoraEtl.Schemas

/-! ### Dictionaries -/

/-- `DataType(value)`. -/
def DataType.ofValue : String → Option DataType
  | "string" => some .string
  | "integer" => some .integer
  | "float" => some .float
  | "boolean" => some .boolean
  | "timestamp" => some .timestamp
  | "json" => some .json
  | "bytes" => some .bytes
  | "null" => some .null
  | _ => none

@[simp]
theorem DataType.ofValue_value (dataType : DataType) : ofValue dataType.value = some dataType := by
  cases dataType <;> rfl

/-- The dictionary of a column; a key may be missing. -/
structure ColumnDict where
  name : Option String
  dataType : Option String
  nullable : Option Bool
  inferredFrom : Option ℕ

/-- The dictionary of a schema; an empty hash is as good as none. -/
structure SchemaDict (H : Type) where
  table : Option String
  columns : Option (OrderedDict String ColumnDict)
  version : Option ℕ
  hash : Option H

/-- What a load raises. -/
inductive LoadError (H : Type) where
  | keyError (key : String)
  | invalidDataType (value : String)
  | hashMismatch (table : String) (stored computed : H)
  | backend

def Column.toDict (column : Column) : ColumnDict :=
  ⟨some column.name, some column.dataType.value, some column.nullable, some column.inferredFrom⟩

variable {H : Type}

/-- `data[key]`. -/
def lookupKey {α : Type} (key : String) : Option α → Except (LoadError H) α
  | some value => .ok value
  | none => .error (.keyError key)

/-- `Column.from_dict`. -/
def Column.fromDict (data : ColumnDict) : Except (LoadError H) Column := do
  let name ← lookupKey "name" data.name
  let value ← lookupKey "data_type" data.dataType
  let dataType ←
    match DataType.ofValue value with
    | some dataType => .ok dataType
    | none => .error (.invalidDataType value)
  let nullable ← lookupKey "nullable" data.nullable
  return { name := name, dataType := dataType, nullable := nullable,
           inferredFrom := data.inferredFrom.getD 0 }

theorem Column.fromDict_toDict (column : Column) :
    fromDict column.toDict = (.ok column : Except (LoadError H) Column) := by
  obtain ⟨name, dataType, nullable, inferredFrom⟩ := column
  cases dataType <;> rfl

namespace Schema

variable (digest : SchemaContent → H)

/-- `to_dict`. -/
def toDict (schema : Schema) : SchemaDict H where
  table := some schema.table
  columns := some (schema.columns.map Column.toDict)
  version := some schema.version
  hash := some (schema.hash digest)

/-- The columns of `from_dict`. -/
def readColumns (columns : OrderedDict String ColumnDict) :
    Except (LoadError H) (OrderedDict String Column) := do
  let entries ← columns.entries.mapM fun entry => do
    let column ← Column.fromDict entry.2
    return (entry.1, column)
  return OrderedDict.ofEntries entries

/-- `from_dict`. -/
def fromDict [DecidableEq H] (strictHash : Bool) (data : SchemaDict H) :
    Except (LoadError H) Schema := do
  let columns ← lookupKey "columns" data.columns
  let columns ← readColumns columns
  let table ← lookupKey "table" data.table
  let schema : Schema := { table := table, columns := columns, version := data.version.getD 1 }
  match data.hash with
  | some stored =>
    if stored ≠ schema.hash digest ∧ strictHash then
      .error (.hashMismatch table stored (schema.hash digest))
    else return schema
  | none => return schema

theorem readColumns_toDict (columns : OrderedDict String Column) :
    readColumns (columns.map Column.toDict) = (.ok columns : Except (LoadError H) _) := by
  have hentries : ∀ entries : List (String × Column),
      (entries.map fun entry => (entry.1, entry.2.toDict)).mapM
          (fun entry => do
            let column ← (Column.fromDict entry.2 : Except (LoadError H) Column)
            return (entry.1, column)) = .ok entries := by
    intro entries
    induction entries with
    | nil => rfl
    | cons entry entries ih =>
      rw [List.map_cons, List.mapM_cons, ih, Column.fromDict_toDict]
      rfl
  rw [readColumns, OrderedDict.map, hentries]
  exact congrArg Except.ok (OrderedDict.ofEntries_entries columns)

/-- A schema is read back as it was stored. -/
theorem fromDict_toDict [DecidableEq H] (strictHash : Bool) (schema : Schema) :
    fromDict digest strictHash (schema.toDict digest) = .ok schema := by
  have hhash : ¬ (schema.hash digest ≠ schema.hash digest ∧ strictHash = true) := fun h => h.1 rfl
  have hcolumns := readColumns_toDict (H := H) schema.columns
  unfold fromDict toDict
  dsimp only [lookupKey]
  change (readColumns (schema.columns.map Column.toDict) >>= fun _ => _) = _
  rw [hcolumns]
  exact if_neg hhash

end Schema

/-! ### The store -/

/-- What the backend has under the key of a table. -/
inductive StoredValue (H : Type) where
  | dict (data : SchemaDict H)
  | other

/-- `BackendSchemaStore.load`. -/
def load [DecidableEq H] (digest : SchemaContent → H) (contract : SchemaContract) :
    Option (StoredValue H) → Except (LoadError H) (Option Schema)
  | none => .ok none
  | some .other => .ok none
  | some (.dict data) => some <$> Schema.fromDict digest (contract = .freeze) data

end AgoraEtl.Schemas
