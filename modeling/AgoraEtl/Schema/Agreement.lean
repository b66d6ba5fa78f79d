import AgoraEtl.Schema.Processor

/-!
# Evolution and inference

Inference over a list of records gives the supremum of the types of a column. What merging and
processing give is compared with that: when a merge of two inferred schemas is the schema inferred
from all the records, and when records processed one by one have the types that inference gives.
-/

namespace AgoraEtl.Schemas

/-! ### Types one after the other -/

/-- The type that processing gives a column with these types. -/
def processedType (types : List DataType) : DataType := types.foldl mergedType ⊥

/-- No type lies strictly below the supremum of those before it, except where that is `string`; or
the supremum of all is `string`. -/
def KeepsUp (types : List DataType) : Prop :=
  joined types = ⊤ ∨ ∀ front type rest, types = front ++ type :: rest →
    joined front ≤ type ∨ joined front ⊔ type = ⊤

/-- From text on no type is merged to anything else. -/
theorem foldl_mergedType_top (types : List DataType) : types.foldl mergedType ⊤ = ⊤ := by
  induction types with
  | nil => rfl
  | cons type types ih =>
    rw [List.foldl_cons, DataType.top_eq_string, mergedType_top]
    exact ih

/-- Merging one by one agrees with joining as long as each type holds what came before. -/
theorem foldl_mergedType_eq_iff (start : DataType) (types : List DataType) :
    types.foldl mergedType start = start ⊔ joined types ↔
      start ⊔ joined types = ⊤ ∨ ∀ front type rest, types = front ++ type :: rest →
        start ⊔ joined front ≤ type ∨ start ⊔ joined front ⊔ type = ⊤ := by
  induction types generalizing start with
  | nil => simp
  | cons type types ih =>
    rw [List.foldl_cons, joined_cons]
    by_cases hstep : mergedType start type = start ⊔ type
    · rw [hstep, ← sup_assoc, ih]
      refine or_congr_right ⟨fun h front next rest hsplit => ?_, fun h front next rest hsplit => ?_⟩
      · cases front with
        | nil =>
          rw [List.nil_append, List.cons_eq_cons] at hsplit
          rw [joined_nil, sup_bot_eq, ← hsplit.1]
          exact (mergedType_eq_sup_iff start type).mp hstep
        | cons first front =>
          rw [List.cons_append, List.cons_eq_cons] at hsplit
          rw [joined_cons, ← hsplit.1, ← sup_assoc]
          exact h front next rest hsplit.2
      · have hlater := h (type :: front) next rest (by rw [hsplit]; rfl)
        rwa [joined_cons, ← sup_assoc] at hlater
    · -- the type falls back to `string`, and stays there
      have htop : mergedType start type = ⊤ := by
        rw [mergedType] at hstep ⊢
        split at hstep
        next hle => exact absurd (sup_eq_right.mpr hle).symm hstep
        next hnot => rw [if_neg hnot]; rfl
      rw [htop, foldl_mergedType_top]
      constructor
      · exact fun h => .inl h.symm
      · rintro (h | h)
        · exact h.symm
        · have hfirst := h [] type types rfl
          rw [joined_nil, sup_bot_eq] at hfirst
          exact absurd ((mergedType_eq_sup_iff start type).mpr hfirst) hstep

/-- Processing agrees with inference on these types. -/
theorem processedType_eq_joined_iff (types : List DataType) :
    processedType types = joined types ↔ KeepsUp types := by
  have h := foldl_mergedType_eq_iff ⊥ types
  simp only [bot_sup_eq] at h
  exact h

/-! ### The columns of one record -/

namespace SchemaProcessor

/-- The schema of a record has the type of each field. -/
theorem get?_inferRecordSchema (processor : SchemaProcessor) (record : Record) (name : String) :
    (processor.inferRecordSchema record).columns.get? name =
      ((extractRecordFields record).get? name).map fun value =>
        { name := name, dataType := inferPythonType value, nullable := true, inferredFrom := 1 } := by
  have h := get?_inferSchema [record] processor.table name
  have hschema : processor.inferRecordSchema record = inferSchema [record] processor.table := rfl
  rw [hschema, h, observedTypes, List.filterMap_cons, List.filterMap_nil]
  cases (extractRecordFields record).get? name with
  | none => rfl
  | some value => simp [columnOf]

end SchemaProcessor

/-! ### Merging inferred schemas -/

section

variable {H : Type} [DecidableEq H] (digest : SchemaContent → H)

/-- The merge of the schemas of two lists has the columns of the schema of both lists: names, types,
nullability and counts. -/
def MergesLikeInference (table : String) (xs ys : List Record) : Prop :=
  ∃ merged changes, merge digest .evolve (inferSchema xs table) (inferSchema ys table) =
      .ok (merged, changes) ∧
    ∀ name, merged.columns.get? name = (inferSchema (xs ++ ys) table).columns.get? name

/-- A column evolves to that of all records exactly if the types allow it. -/
theorem evolvedColumn_columnOf_eq_iff (name : String) (types later : List DataType) :
    evolvedColumn .evolve (columnOf name types) (columnOf name later) = columnOf name (types ++ later) ↔
      (types ≠ [] → later ≠ [] →
        joined types ≤ joined later ∨ joined types ⊔ joined later = ⊤) := by
  rcases types with _ | ⟨type, types⟩
  · have hnone : evolvedColumn .evolve (columnOf name []) (columnOf name later) =
        columnOf name ([] ++ later) := rfl
    exact iff_of_true hnone fun h => absurd rfl h
  rcases later with _ | ⟨next, later⟩
  · simp [evolvedColumn, columnOf]
  have hmerged : evolvedColumn .evolve (columnOf name (type :: types)) (columnOf name (next :: later)) =
      columnOf name (type :: types ++ next :: later) ↔
      mergedType (joined (type :: types)) (joined (next :: later)) =
        joined (type :: types) ⊔ joined (next :: later) := by
    unfold columnOf evolvedColumn mergedColumn Column.mergedWith
    simp only [List.cons_append, reduceCtorEq, if_false, Option.some.injEq, Column.mk.injEq,
      true_and, Bool.or_self]
    rw [← List.cons_append, joined_append, List.length_append]
    exact and_iff_left rfl
  rw [hmerged, mergedType_eq_sup_iff]
  simp

/-- Merging agrees with inference exactly if every column's types allow it. -/
theorem mergesLikeInference_iff (table : String) (xs ys : List Record) :
    MergesLikeInference digest table xs ys ↔
      if (inferSchema xs table).hash digest = (inferSchema ys table).hash digest then
        ∀ name, observedTypes name ys = []
      else ∀ name, observedTypes name xs ≠ [] → observedTypes name ys ≠ [] →
        joined (observedTypes name xs) ≤ joined (observedTypes name ys) ∨
          joined (observedTypes name xs) ⊔ joined (observedTypes name ys) = ⊤ := by
  unfold MergesLikeInference
  split
  next hhash =>
    rw [merge_of_hash_eq digest .evolve hhash]
    constructor
    · rintro ⟨merged, changes, ⟨⟩, hcolumns⟩ name
      have hname := hcolumns name
      rw [get?_inferSchema, get?_inferSchema, observedTypes_append] at hname
      -- the counts differ by the number of values in the second list
      have hcount := congrArg (fun column => (column.map Column.inferredFrom).getD 0) hname
      have hlength : ∀ types, ((columnOf name types).map Column.inferredFrom).getD 0 =
          types.length := by
        intro types
        cases types <;> simp [columnOf]
      rw [hlength, hlength, List.length_append] at hcount
      exact List.length_eq_zero_iff.mp (by omega)
    · intro hnone
      refine ⟨_, _, rfl, fun name => ?_⟩
      rw [get?_inferSchema, get?_inferSchema, observedTypes_append, hnone name, List.append_nil]
  next hhash =>
    obtain ⟨merged, changes, hmerge, hcolumns⟩ := get?_merge_evolve digest hhash
    have hcolumn : ∀ name, merged.columns.get? name =
        (inferSchema (xs ++ ys) table).columns.get? name ↔
        (observedTypes name xs ≠ [] → observedTypes name ys ≠ [] →
          joined (observedTypes name xs) ≤ joined (observedTypes name ys) ∨
            joined (observedTypes name xs) ⊔ joined (observedTypes name ys) = ⊤) := by
      intro name
      rw [hcolumns, get?_inferSchema, get?_inferSchema, get?_inferSchema, observedTypes_append]
      exact evolvedColumn_columnOf_eq_iff name _ _
    rw [hmerge]
    constructor
    · rintro ⟨merged', changes', ⟨⟩, hsame⟩ name
      exact (hcolumn name).mp (hsame name)
    · exact fun h => ⟨merged, changes, rfl, fun name => (hcolumn name).mpr (h name)⟩

/-! ### Processing records one by one -/

/-- The type of the column of a name, when there is a schema with the column. -/
def typeOf (schema : Option Schema) (name : String) : Option DataType :=
  schema.bind fun schema => (schema.columns.get? name).map Column.dataType

/-- The type of a column after a record. -/
def evolvedType : Option DataType → Option DataType → Option DataType
  | some old, some new => some (mergedType old new)
  | some old, none => some old
  | none, new => new

/-- Under EVOLVE each column has the evolved type. -/
theorem typeOf_merge_evolve (hdigest : Function.Injective digest) {old new merged : Schema}
    {changes : List SchemaChange} (hmerge : merge digest .evolve old new = .ok (merged, changes))
    (name : String) :
    typeOf (some merged) name = evolvedType (typeOf (some old) name) (typeOf (some new) name) := by
  by_cases hhash : old.hash digest = new.hash digest
  · rw [merge_of_hash_eq digest .evolve hhash] at hmerge
    obtain ⟨rfl, -⟩ := Prod.mk.inj (Except.ok.inj hmerge)
    have hcontent : old.content = new.content := hdigest hhash
    unfold typeOf
    simp only [Option.bind_some]
    cases hold : old.columns.get? name with
    | some column =>
      obtain ⟨column', hnew, htype, -⟩ := Schema.exists_get?_of_content_eq hcontent hold
      simp [hnew, htype, evolvedType, mergedType]
    | none =>
      cases hnew : new.columns.get? name with
      | none => rfl
      | some column =>
        obtain ⟨column', hold', -⟩ := Schema.exists_get?_of_content_eq hcontent.symm hnew
        rw [hold] at hold'
        exact absurd hold' (by simp)
  · obtain ⟨merged', changes', hmerge', hcolumns⟩ := get?_merge_evolve digest hhash
    rw [hmerge] at hmerge'
    obtain ⟨rfl, -⟩ := Prod.mk.inj (Except.ok.inj hmerge')
    unfold typeOf
    simp only [Option.bind_some, hcolumns]
    cases old.columns.get? name <;> cases new.columns.get? name <;> rfl

namespace SchemaProcessor

/-- The type of a column of one record is that of its value. -/
theorem typeOf_inferRecordSchema (processor : SchemaProcessor) (record : Record) (name : String) :
    typeOf (some (processor.inferRecordSchema record)) name =
      ((extractRecordFields record).get? name).map inferPythonType := by
  unfold typeOf
  rw [Option.bind_some, get?_inferRecordSchema]
  cases (extractRecordFields record).get? name <;> rfl

/-- What a record does to the processor under `EVOLVE`. -/
theorem advance_evolve (hdigest : Function.Injective digest) {processor : SchemaProcessor}
    (hcontract : processor.contract = .evolve) (record : Record) :
    (processor.advance digest record).contract = .evolve ∧
      (processor.advance digest record).table = processor.table ∧
      ∀ name, typeOf (processor.advance digest record).currentSchema name =
        evolvedType (typeOf processor.currentSchema name)
          (((extractRecordFields record).get? name).map inferPythonType) := by
  obtain ⟨result, hprocess⟩ := processor.process_ok digest record
  generalize processor.advance digest record = next at hprocess ⊢
  have hcandidate : processor.processCandidate digest record = .ok (next, result) := by
    rw [process] at hprocess
    split at hprocess
    next hnone => exact hprocess
    next schema hschema =>
      rw [if_neg (by simp [hcontract]), if_neg (by simp [hcontract])] at hprocess
      exact hprocess
  have hfields := fun name => processor.typeOf_inferRecordSchema record name
  rw [processCandidate] at hcandidate
  dsimp only at hcandidate
  split at hcandidate
  next hempty =>
    obtain ⟨rfl, -⟩ := Prod.mk.inj (Except.ok.inj hcandidate)
    refine ⟨hcontract, rfl, fun name => ?_⟩
    have hnone : (processor.inferRecordSchema record).columns.get? name = none := by
      rw [OrderedDict.get?, List.isEmpty_iff.mp hempty]
      rfl
    rw [← hfields name, typeOf, typeOf, Option.bind_some, hnone]
    cases processor.currentSchema.bind fun schema =>
      (schema.columns.get? name).map Column.dataType <;> rfl
  next hsome =>
    split at hcandidate
    next hnone =>
      obtain ⟨rfl, -⟩ := Prod.mk.inj (Except.ok.inj hcandidate)
      refine ⟨hcontract, rfl, fun name => ?_⟩
      rw [hnone, ← hfields name]
      rfl
    next schema hschema =>
      split at hcandidate
      next error hmerge =>
        rw [if_neg (by simp [hcontract])] at hcandidate
        exact absurd hcandidate (by simp)
      next merged changes hmerge =>
        obtain ⟨rfl, -⟩ := Prod.mk.inj (Except.ok.inj hcandidate)
        refine ⟨hcontract, rfl, fun name => ?_⟩
        rw [hcontract] at hmerge
        rw [hschema, ← hfields name]
        exact typeOf_merge_evolve digest hdigest hmerge name

/-- Along a run the types evolve one by one. -/
theorem typeOf_run (hdigest : Function.Injective digest) {processor : SchemaProcessor}
    (hcontract : processor.contract = .evolve) (records : List Record) (name : String) :
    typeOf (processor.run digest records).currentSchema name =
      (observedTypes name records).foldl (fun old new => evolvedType old (some new))
        (typeOf processor.currentSchema name) := by
  induction records generalizing processor with
  | nil => rfl
  | cons record records ih =>
    obtain ⟨hcontract', -, htypes⟩ := advance_evolve digest hdigest hcontract record
    have hrun : processor.run digest (record :: records) =
        (processor.advance digest record).run digest records := rfl
    rw [hrun, ih hcontract', htypes name, observedTypes_cons, List.foldl_append]
    cases ((extractRecordFields record).get? name).map inferPythonType with
    | none => cases typeOf processor.currentSchema name <;> rfl
    | some type => rfl

end SchemaProcessor

/-- A known type is merged with one type after the other. -/
theorem foldl_evolvedType_some (start : DataType) (types : List DataType) :
    types.foldl (fun old new => evolvedType old (some new)) (some start) =
      some (types.foldl mergedType start) := by
  induction types generalizing start with
  | nil => rfl
  | cons type types ih => exact ih (mergedType start type)

/-- An unknown one begins with the first. -/
theorem foldl_evolvedType_none (types : List DataType) :
    types.foldl (fun old new => evolvedType old (some new)) none =
      if types = [] then none else some (processedType types) := by
  cases types with
  | nil => rfl
  | cons type types =>
    have hstart : mergedType ⊥ type = type := if_pos bot_le
    rw [if_neg (List.cons_ne_nil _ _), List.foldl_cons, processedType, List.foldl_cons, hstart]
    exact foldl_evolvedType_some type types

/-- Records processed one by one by a new processor have the types that are inferred from all. -/
def ProcessesLikeInference (table : String) (records : List Record) : Prop :=
  ∀ name, typeOf (({ table := table } : SchemaProcessor).run digest records).currentSchema name =
    typeOf (some (inferSchema records table)) name

/-- The inferred type of a column is the join of those observed. -/
theorem typeOf_inferSchema (table : String) (records : List Record) (name : String) :
    typeOf (some (inferSchema records table)) name =
      if observedTypes name records = [] then none
      else some (joined (observedTypes name records)) := by
  rw [typeOf, Option.bind_some, get?_inferSchema, columnOf]
  split <;> rfl

/-- Processing agrees with inference exactly if every column keeps up. -/
theorem processesLikeInference_iff (hdigest : Function.Injective digest) (table : String)
    (records : List Record) :
    ProcessesLikeInference digest table records ↔
      ∀ name, KeepsUp (observedTypes name records) := by
  refine forall_congr' fun name => ?_
  rw [SchemaProcessor.typeOf_run digest hdigest rfl, typeOf_inferSchema]
  have hstart : typeOf ({ table := table } : SchemaProcessor).currentSchema name = none := rfl
  rw [hstart, foldl_evolvedType_none]
  rcases htypes : observedTypes name records with _ | ⟨type, types⟩
  · exact iff_of_true rfl ((processedType_eq_joined_iff []).mp rfl)
  · rw [if_neg (List.cons_ne_nil _ _), if_neg (List.cons_ne_nil _ _), Option.some.injEq]
    exact processedType_eq_joined_iff _

/-- A null in a column with a type leaves the type alone only if it is `string`. -/
theorem typeOf_null_iff (hdigest : Function.Injective digest) {processor : SchemaProcessor}
    (hcontract : processor.contract = .evolve) {record : Record} {name : String}
    {type : DataType} (htype : typeOf processor.currentSchema name = some type)
    (htyped : type ≠ .null) (hnull : (extractRecordFields record).get? name = some .none) :
    typeOf (processor.advance digest record).currentSchema name = some type ↔ type = .string := by
  obtain ⟨-, -, hadvance⟩ := SchemaProcessor.advance_evolve digest hdigest hcontract record
  rw [hadvance, htype, hnull]
  change some (mergedType type .null) = some type ↔ type = .string
  rw [Option.some.injEq]
  revert htyped
  cases type <;> decide

/-- Merging and processing agree with inference unless a type comes that lies strictly below that of
its column, or schemas of one content are merged: their counts are not added. -/
theorem evolution_like_inference_iff (hdigest : Function.Injective digest) (table : String) :
    (∀ xs ys, MergesLikeInference digest table xs ys ↔
      if (inferSchema xs table).hash digest = (inferSchema ys table).hash digest then
        ∀ name, observedTypes name ys = []
      else ∀ name, observedTypes name xs ≠ [] → observedTypes name ys ≠ [] →
        joined (observedTypes name xs) ≤ joined (observedTypes name ys) ∨
          joined (observedTypes name xs) ⊔ joined (observedTypes name ys) = ⊤) ∧
    (∀ records, ProcessesLikeInference digest table records ↔
      ∀ name, KeepsUp (observedTypes name records)) ∧
    (∀ records later : List Record, records.Perm later → ∀ name,
      typeOf (some (inferSchema records table)) name =
        typeOf (some (inferSchema later table)) name) ∧
    ∀ (processor : SchemaProcessor) record name type, processor.contract = .evolve →
      typeOf processor.currentSchema name = some type → type ≠ .null →
      (extractRecordFields record).get? name = some .none →
      (typeOf (processor.advance digest record).currentSchema name = some type ↔
        type = .string) := by
  refine ⟨mergesLikeInference_iff digest table, processesLikeInference_iff digest hdigest table,
    fun records later hperm name => ?_, fun processor record name type hcontract htype htyped hnull =>
      typeOf_null_iff digest hdigest hcontract htype htyped hnull⟩
  have htypes := observedTypes_perm name hperm
  have hempty : observedTypes name records = [] ↔ observedTypes name later = [] := by
    constructor
    · intro h
      rw [h] at htypes
      exact htypes.nil_eq.symm
    · intro h
      rw [h] at htypes
      exact htypes.eq_nil
  rw [typeOf_inferSchema, typeOf_inferSchema, joined_perm htypes]
  simp only [hempty]

end

/-- A record with one value under one name. -/
def single (value : PyValue) : Record := .dict (OrderedDict.ofEntries [("x", value)])

/-- A processor that knows the column of that name. -/
def knowing (type : DataType) : SchemaProcessor where
  table := "t"
  currentSchema := some { table := "t", columns := OrderedDict.ofEntries [("x", ⟨"x", type, true, 1⟩)] }

/-- A null leaves a `string` column alone. -/
theorem evolution_like_inference_string :
    typeOf ((knowing .string).advance id (single .none)).currentSchema "x" = some .string := by
  obtain ⟨-, -, -, hnull⟩ := evolution_like_inference_iff id Function.injective_id "t"
  refine (hnull (knowing .string) (single .none) "x" .string rfl ?_ (by decide) ?_).mpr rfl
  · decide
  · rfl

/-- A null after a number makes the column a `string`, where inference keeps `integer`. -/
theorem not_processesLikeInference_null :
    ¬ ProcessesLikeInference id "t" [single (.int 1), single .none] := by
  intro h
  have hprocessed : typeOf (({ table := "t" } : SchemaProcessor).run id
      [single (.int 1), single .none]).currentSchema "x" = some .string := by decide
  have hinferred : typeOf (some (inferSchema [single (.int 1), single .none] "t")) "x" =
      some .integer := by decide
  exact absurd (hprocessed.symm.trans ((h "x").trans hinferred)) (by decide)

end AgoraEtl.Schemas
