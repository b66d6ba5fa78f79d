import AgoraEtl.Schema.Evolution

/-!
# Processing records under a contract

`SchemaProcessor` infers a schema from every record and merges it into the current one. Under
`EVOLVE` the type of a column is what `mergedType` makes of the types of its values one after the
other. This agrees with inference, which takes their supremum, unless a value comes whose type lies
strictly below that of the column, as `null` does for every typed column.
-/

namespace AgoraEtl.Schemas

/-! ### Records and schemas -/

/-- `record_violates_schema`. -/
def recordViolatesSchema (record : Record) (schema : Schema) : Bool :=
  (extractRecordFields record).entries.any fun field =>
    match schema.columns.get? field.1 with
    | none => true
    | some column =>
      if inferPythonType field.2 = .null then false
      else if inferPythonType field.2 ≠ column.dataType ∧
          canWiden column.dataType (inferPythonType field.2) = false then true
      else inferPythonType field.2 ≠ column.dataType

/-- `discard_unknown_columns`: an object without `__dict__` is returned as it is. -/
def discardUnknownColumns (record : Record) (allowed : List String) : Record :=
  match record with
  | .dict fields => .dict (fields.filterKeys fun name => allowed.contains name)
  | .object modelDump (some attributes) =>
    .object modelDump (some (attributes.filterKeys fun name => allowed.contains name))
  | .object modelDump none => .object modelDump none

/-! ### The processor -/

/-- `SchemaMetrics`. -/
structure SchemaMetrics where
  columnsAdded : ℕ := 0
  columnsRemoved : ℕ := 0
  typesWidened : ℕ := 0
  typeConflicts : ℕ := 0
  recordsObserved : ℕ := 0
  schemaVersion : ℕ := 1

/-- `SchemaProcessor`. The inferrer is reset before every record and has no state of its own. -/
structure SchemaProcessor where
  table : String
  contract : SchemaContract := .evolve
  currentSchema : Option Schema := none
  pendingError : Option SchemaEvolutionError := none
  metrics : SchemaMetrics := {}

/-- `SchemaProcessResult`. -/
structure SchemaProcessResult where
  record : Option Record
  schema : Option Schema
  changes : List SchemaChange := []

/-- `_initial_schema_changes`. -/
def initialSchemaChanges (schema : Schema) : List SchemaChange :=
  (schema.columns.entries.insertionSort fun a b => a.1 ≤ b.1).map fun entry =>
    columnAdded entry.1 entry.2

namespace SchemaProcessor

/-- `load_schema`. -/
def loadSchema (processor : SchemaProcessor) (schema : Option Schema) : SchemaProcessor :=
  { processor with
    currentSchema := schema
    pendingError := none
    metrics :=
      match schema with
      | none => {}
      | some schema => { schemaVersion := schema.version } }

/-- `_infer_record_schema`. -/
def inferRecordSchema (processor : SchemaProcessor) (record : Record) : Schema :=
  ((SchemaInferrer.init processor.table).reset.observe record).finalize

/-- The metrics after a merge. -/
def mergeMetrics (metrics : SchemaMetrics) (merged : Schema) (changes : List SchemaChange) :
    SchemaMetrics :=
  { metrics with
    columnsAdded := metrics.columnsAdded + changes.countP fun c => c.changeType == "column_added"
    typesWidened := metrics.typesWidened + changes.countP fun c => c.changeType == "type_widened"
    typeConflicts := metrics.typeConflicts +
      changes.countP fun c => c.changeType == "type_conflict"
    schemaVersion := merged.version }

variable {H : Type} [DecidableEq H] (digest : SchemaContent → H)

/-- `process`, from the candidate on. -/
def processCandidate (processor : SchemaProcessor) (candidate : Record) :
    Except SchemaEvolutionError (SchemaProcessor × SchemaProcessResult) :=
  let recordSchema := processor.inferRecordSchema candidate
  let observed := { processor.metrics with
    recordsObserved := processor.metrics.recordsObserved + 1 }
  if recordSchema.columns.entries.isEmpty then
    .ok ({ processor with metrics := observed },
      { record := some candidate, schema := processor.currentSchema })
  else
    match processor.currentSchema with
    | none =>
      .ok ({ processor with
          currentSchema := some recordSchema
          metrics := { observed with
            columnsAdded := observed.columnsAdded + recordSchema.columns.entries.length
            schemaVersion := recordSchema.version } },
        { record := some candidate, schema := some recordSchema,
          changes := initialSchemaChanges recordSchema })
    | some schema =>
      match merge digest processor.contract schema recordSchema with
      | .error error =>
        if processor.contract = .freeze then
          .ok ({ processor with
              pendingError := processor.pendingError.orElse fun _ => some error
              metrics := observed },
            { record := none, schema := processor.currentSchema })
        else .error error
      | .ok (merged, changes) =>
        .ok ({ processor with
            currentSchema := some merged
            metrics := mergeMetrics observed merged changes },
          { record := some candidate, schema := some merged, changes := changes })

/-- `process`. -/
def process (processor : SchemaProcessor) (record : Record) :
    Except SchemaEvolutionError (SchemaProcessor × SchemaProcessResult) :=
  match processor.currentSchema with
  | none => processor.processCandidate digest record
  | some schema =>
    if processor.contract = .discardRow ∧ recordViolatesSchema record schema = true then
      .ok (processor, { record := none, schema := some schema })
    else if processor.contract = .discardColumn then
      processor.processCandidate digest (discardUnknownColumns record schema.columns.keys)
    else processor.processCandidate digest record

/-- The processor after a record, which `process` has always (`process_ok`). -/
def advance (processor : SchemaProcessor) (record : Record) : SchemaProcessor :=
  match processor.process digest record with
  | .ok (next, _) => next
  | .error _ => processor

/-- The processor after some records. -/
def run (processor : SchemaProcessor) (records : List Record) : SchemaProcessor :=
  records.foldl (advance digest) processor

theorem processCandidate_ok (processor : SchemaProcessor) (candidate : Record) :
    ∃ next result, processor.processCandidate digest candidate = .ok (next, result) := by
  unfold processCandidate
  dsimp only
  split
  next => exact ⟨_, _, rfl⟩
  next hfields =>
    split
    next hnone => exact ⟨_, _, rfl⟩
    next schema hschema =>
      split
      next error hmerge =>
        by_cases hfreeze : processor.contract = .freeze
        · rw [if_pos hfreeze]
          exact ⟨_, _, rfl⟩
        · exfalso
          by_cases hhash : schema.hash digest = (processor.inferRecordSchema candidate).hash digest
          · rw [merge_of_hash_eq digest _ hhash] at hmerge
            exact absurd hmerge nofun
          · obtain ⟨merged, changes, hok, -⟩ := merge_ok digest hhash (.inl hfreeze)
            rw [hok] at hmerge
            exact absurd hmerge nofun
      next merged changes hmerge => exact ⟨_, _, rfl⟩

/-- Only `FREEZE` rejects a merge, and it keeps the error. -/
theorem process_ok (processor : SchemaProcessor) (record : Record) :
    ∃ result, processor.process digest record = .ok (processor.advance digest record, result) := by
  have hok : ∃ next result, processor.process digest record = .ok (next, result) := by
    unfold process
    split
    next hnone => exact processor.processCandidate_ok digest record
    next schema hschema =>
      split
      · exact ⟨_, _, rfl⟩
      · split
        · exact processor.processCandidate_ok digest _
        · exact processor.processCandidate_ok digest record
  obtain ⟨next, result, hprocess⟩ := hok
  refine ⟨result, ?_⟩
  rw [advance, hprocess]

end SchemaProcessor

end AgoraEtl.Schemas
