import AgoraEtl.Data.OrderedDict
import Mathlib.Data.List.Sort
import Mathlib.Order.Lattice

/-!
# Data types, columns and schemas

The data types form a semilattice: `null` is below every type, `integer` is below `float`, every type
is below `string`, and nothing else is comparable. `widen_type` is its supremum and `can_widen` its
order, so that what the widening rules should do can be said of the order.

The digest of a schema is a function of its content: the table and the names, types and nullability
of its columns, sorted by name.
-/

namespace AgoraEtl.Schemas

/-! ### Data types -/

/-- `DataType`. -/
inductive DataType where
  | string
  | integer
  | float
  | boolean
  | timestamp
  | json
  | bytes
  | null
  deriving DecidableEq, Repr

/-- The value of the enumeration member. -/
def DataType.value : DataType → String
  | .string => "string"
  | .integer => "integer"
  | .float => "float"
  | .boolean => "boolean"
  | .timestamp => "timestamp"
  | .json => "json"
  | .bytes => "bytes"
  | .null => "null"

/-- `SchemaContract`. -/
inductive SchemaContract where
  | evolve
  | freeze
  | discardColumn
  | discardRow
  deriving DecidableEq, Repr

/-- `can_widen`. -/
def canWiden (fromType toType : DataType) : Bool :=
  if fromType = toType then true
  else if fromType = .null then true
  else if fromType = .integer ∧ toType = .float then true
  else toType = .string

/-- `widen_type`. -/
def widenType (fromType toType : DataType) : DataType :=
  if fromType = toType then fromType
  else if fromType = .null then toType
  else if toType = .null then fromType
  else if fromType = .integer ∧ toType = .float then .float
  else if fromType = .float ∧ toType = .integer then .float
  else .string

namespace DataType

instance : Max DataType := ⟨widenType⟩

theorem widenType_comm (a b : DataType) : widenType a b = widenType b a := by
  cases a <;> cases b <;> rfl

theorem widenType_assoc (a b c : DataType) :
    widenType (widenType a b) c = widenType a (widenType b c) := by
  cases a <;> cases b <;> cases c <;> rfl

theorem widenType_idem (a : DataType) : widenType a a = a := if_pos rfl

/-- One type is below another if it can be widened to it. -/
instance : SemilatticeSup DataType :=
  SemilatticeSup.mk' widenType_comm widenType_assoc widenType_idem

instance : DecidableLE DataType := fun a b => decidable_of_iff (widenType a b = b) Iff.rfl

instance : OrderBot DataType where
  bot := .null
  bot_le a := by cases a <;> decide

instance : OrderTop DataType where
  top := .string
  le_top a := by cases a <;> decide

theorem top_eq_string : (⊤ : DataType) = .string := rfl

/-- `can_widen` is the order of the widening rules. -/
theorem canWiden_iff (a b : DataType) : canWiden a b = true ↔ a ≤ b := by
  cases a <;> cases b <;> decide

end DataType

/-! ### Values -/

/-- A value of a record. -/
inductive PyValue where
  | none
  | bool (value : Bool)
  | int (value : Int)
  | float (value : Float)
  | str (value : String)
  | bytes (value : List UInt8)
  | datetime (isoformat : String)
  | date (isoformat : String)
  | dict (items : List (PyValue × PyValue))
  | list (items : List PyValue)
  | other (repr : String)

/-- `infer_python_type`. -/
def inferPythonType : PyValue → DataType
  | .none => .null
  | .bool _ => .boolean
  | .int _ => .integer
  | .float _ => .float
  | .str _ => .string
  | .bytes _ => .bytes
  | .datetime _ => .timestamp
  | .date _ => .timestamp
  | .dict _ => .json
  | .list _ => .json
  | .other _ => .string

/-! ### Schemas -/

/-- `Column`. -/
structure Column where
  name : String
  dataType : DataType
  nullable : Bool := true
  inferredFrom : ℕ := 0
  deriving DecidableEq, Repr

/-- What the digest of a schema is taken of. -/
structure SchemaContent where
  table : String
  columns : List (String × DataType × Bool)
  deriving DecidableEq

/-- `Schema`; the digest is a function of it. -/
structure Schema where
  table : String
  columns : OrderedDict String Column
  version : ℕ := 1
  deriving DecidableEq

namespace Schema

/-- What the content keeps of an entry. -/
def contentEntry (entry : String × Column) : String × DataType × Bool :=
  (entry.1, entry.2.dataType, entry.2.nullable)

/-- The content that `_compute_hash` serializes. -/
def content (schema : Schema) : SchemaContent where
  table := schema.table
  columns := (schema.columns.entries.map contentEntry).insertionSort fun a b => a.1 ≤ b.1

/-- `hash`, for the digest of serialized contents. -/
def hash {H : Type} (digest : SchemaContent → H) (schema : Schema) : H := digest schema.content

/-- Schemas of one content have the same columns up to what was counted. -/
theorem mem_entries_of_content_eq {schema other : Schema} (h : schema.content = other.content)
    (entry : String × DataType × Bool) :
    entry ∈ schema.columns.entries.map contentEntry ↔
      entry ∈ other.columns.entries.map contentEntry := by
  have hcolumns := congrArg SchemaContent.columns h
  dsimp only [content] at hcolumns
  rw [← List.mem_insertionSort fun a b : String × DataType × Bool => a.1 ≤ b.1, hcolumns,
    List.mem_insertionSort]

/-- The content shows the type and the nullability of a column. -/
theorem exists_get?_of_content_eq {schema other : Schema} (h : schema.content = other.content)
    {name : String} {column : Column} (hcolumn : schema.columns.get? name = some column) :
    ∃ column', other.columns.get? name = some column' ∧ column'.dataType = column.dataType ∧
      column'.nullable = column.nullable := by
  rw [← OrderedDict.mem_entries_iff] at hcolumn
  have hmem := (mem_entries_of_content_eq h (contentEntry (name, column))).mp
    (List.mem_map_of_mem hcolumn)
  obtain ⟨⟨name', column'⟩, hentry, heq⟩ := List.mem_map.mp hmem
  obtain ⟨rfl, htype, hnullable⟩ : name' = name ∧ column'.dataType = column.dataType ∧
      column'.nullable = column.nullable := by
    simpa [contentEntry] using heq
  exact ⟨column', OrderedDict.mem_entries_iff.mp hentry, htype, hnullable⟩

end Schema

end AgoraEtl.Schemas
