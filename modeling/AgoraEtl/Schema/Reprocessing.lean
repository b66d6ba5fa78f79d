import AgoraEtl.Schema.Contracts

/-!
# Contracts over a run, and the same records again

Under `FREEZE` and `DISCARD_ROW` the content of the schema is the initial one wherever the contract is
kept, and so the records do nothing the second time. Under the others the schema only goes up and
covers every record it has seen; the records do nothing the second time if none of them has a field
whose type lies below that of its column.
-/

namespace AgoraEtl.Schemas

/-! ### Schemas of one content -/

section

variable {schema other : Schema} {fields : Fields}

/-- What is asked of a column's type depends on the content of the schema only. -/
theorem exists_column_of_content_eq {R : PyValue → DataType → Prop}
    (h : schema.content = other.content) :
    (∃ name value column, fields.get? name = some value ∧ schema.columns.get? name = some column ∧
      R value column.dataType) →
    ∃ name value column, fields.get? name = some value ∧ other.columns.get? name = some column ∧
      R value column.dataType := by
  rintro ⟨name, value, column, hvalue, hcolumn, hrelated⟩
  obtain ⟨column', hcolumn', htype, -⟩ := Schema.exists_get?_of_content_eq h hcolumn
  rw [← htype] at hrelated
  exact ⟨name, value, column', hvalue, hcolumn', hrelated⟩

/-- Schemas of one content are widened by the same records. -/
theorem Widens.of_content_eq (h : schema.content = other.content) :
    Widens schema fields → Widens other fields :=
  exists_column_of_content_eq (R := fun value dataType =>
    dataType ≠ inferPythonType value ∧ dataType ≠ .string) h

/-- The same records clash with them. -/
theorem Clashes.of_content_eq (h : schema.content = other.content) :
    Clashes schema fields → Clashes other fields :=
  exists_column_of_content_eq (R := fun value dataType =>
    dataType ≠ inferPythonType value ∧ dataType = .string) h

/-- The same records loosen them. -/
theorem Loosens.of_content_eq (h : schema.content = other.content) :
    Loosens schema fields → Loosens other fields := by
  rintro ⟨name, value, column, hvalue, hcolumn, hnullable⟩
  obtain ⟨column', hcolumn', -, hsame⟩ := Schema.exists_get?_of_content_eq h hcolumn
  exact ⟨name, value, column', hvalue, hcolumn', hsame.trans hnullable⟩

/-- The same records conform to them. -/
theorem Conforms.of_content_eq (h : schema.content = other.content) :
    Conforms schema fields → Conforms other fields := by
  intro hconforms name value hvalue
  obtain ⟨column, hcolumn, hfits⟩ := hconforms name value hvalue
  obtain ⟨column', hcolumn', htype, -⟩ := Schema.exists_get?_of_content_eq h hcolumn
  rw [← htype] at hfits
  exact ⟨column', hcolumn', hfits⟩

/-- A schema lies below one of the same content. -/
theorem Below.of_content_eq (h : schema.content = other.content) : Below schema other := by
  intro name column hcolumn
  obtain ⟨column', hcolumn', htype, hnullable⟩ := Schema.exists_get?_of_content_eq h hcolumn
  exact ⟨column', hcolumn', htype.ge, hnullable.trans⟩

/-- A record that is covered has no column that is unknown. -/
theorem Covers.not_unknown (h : Covers schema fields) : ¬ Unknown schema fields := by
  rintro ⟨name, value, hvalue, hnone⟩
  obtain ⟨column, hcolumn, -⟩ := h name value hvalue
  exact absurd (hcolumn.symm.trans hnone) nofun

/-- It loosens nothing. -/
theorem Covers.not_loosens (h : Covers schema fields) : ¬ Loosens schema fields := by
  rintro ⟨name, value, column, hvalue, hcolumn, hnullable⟩
  obtain ⟨column', hcolumn', -, htrue⟩ := h name value hvalue
  rw [hcolumn, Option.some.injEq] at hcolumn'
  rw [hcolumn', htrue] at hnullable
  exact absurd hnullable nofun

end

/-- Only DISCARD_COLUMN drops fields before the schema is looked at. -/
theorem candidateFields_of_ne {contract : SchemaContract} (h : contract ≠ .discardColumn)
    (schema : Schema) (record : Record) :
    candidateFields contract schema record = extractRecordFields record := by
  rw [candidateFields, candidateOf, if_neg h]

/-- Which fields are dropped depends on the names of the columns only. -/
theorem candidateFields_congr {contract : SchemaContract} {schema other : Schema}
    (h : contract = .discardColumn → schema.columns.keys = other.columns.keys) (record : Record) :
    candidateFields contract schema record = candidateFields contract other record := by
  rw [candidateFields, candidateFields, candidateOf, candidateOf]
  split
  next hcontract => rw [h hcontract]
  next => rfl

/-! ### Runs -/

section

variable {H : Type} [DecidableEq H] (digest : SchemaContent → H)

/-- Something holds at every record of a run, of the processor that takes it. -/
def AtEvery (P : SchemaProcessor → Record → Prop) : SchemaProcessor → List Record → Prop
  | _, [] => True
  | processor, record :: records =>
    P processor record ∧ AtEvery P (processor.advance digest record) records

/-- The schema has what the contract keeps of the initial one. -/
def Keeps (contract : SchemaContract) (initial schema : Schema) : Prop :=
  match contract with
  | .evolve => True
  | .freeze | .discardRow => schema.hash digest = initial.hash digest
  | .discardColumn => schema.columns.keys = initial.columns.keys

/-- The contract lets the right thing through. -/
def Forwards (contract : SchemaContract) (schema next : Schema) (record : Record)
    (forwarded : Option Record) : Prop :=
  match contract with
  | .evolve => True
  | .freeze => forwarded.isSome = true ↔ Conforms schema (extractRecordFields record)
  | .discardRow => ∀ sent, forwarded = some sent → Conforms next (extractRecordFields sent)
  | .discardColumn => ∀ sent, forwarded = some sent → ¬ Unknown next (extractRecordFields sent)

/-- A record is processed as the contract says, and the version increases if the digest changes. -/
def StepRight (initial : Schema) (processor : SchemaProcessor) (record : Record) : Prop :=
  ∃ schema next result schema', processor.currentSchema = some schema ∧
    processor.process digest record = .ok (next, result) ∧ next.currentSchema = some schema' ∧
    Keeps digest processor.contract initial schema' ∧
    Forwards processor.contract schema schema' record result.record ∧
    (schema.version < schema'.version ↔ schema'.hash digest ≠ schema.hash digest)

/-- Where a record is processed as the contract says. -/
def Meets (contract : SchemaContract) (schema : Schema) (fields : Fields) : Prop :=
  match contract with
  | .evolve => ¬ Widens schema fields → ¬ Unknown schema fields →
      (Clashes schema fields ↔ Loosens schema fields)
  | .freeze | .discardRow => Conforms schema fields →
      ¬ Widens schema fields ∧ ¬ Clashes schema fields ∧ ¬ Loosens schema fields
  | .discardColumn => ¬ Unknown schema fields ∧
      (¬ Widens schema fields → (Clashes schema fields ↔ Loosens schema fields))

/-- The record meets the processor so. -/
def StepMeets (processor : SchemaProcessor) (record : Record) : Prop :=
  ∀ schema, processor.currentSchema = some schema → Meets processor.contract schema
    (candidateFields processor.contract schema record)

/-- A conforming record has no column that is unknown. -/
theorem Conforms.not_unknown {schema : Schema} {fields : Fields} (h : Conforms schema fields) :
    ¬ Unknown schema fields := by
  rintro ⟨name, value, hvalue, hnone⟩
  obtain ⟨column, hcolumn, -⟩ := h name value hvalue
  exact absurd (hcolumn.symm.trans hnone) nofun

/-- What FREEZE does not reject conforms. -/
theorem conforms_of_not_rejects {schema : Schema} {fields : Fields}
    (h : ¬ Rejects .freeze schema fields) : Conforms schema fields := by
  intro name value hvalue
  cases hcolumn : schema.columns.get? name with
  | none => exact absurd (.inl ⟨rfl, .inl ⟨name, value, hvalue, hcolumn⟩⟩) h
  | some column =>
    refine ⟨column, rfl, .inr ?_⟩
    by_contra hne
    have hdiffers : column.dataType ≠ inferPythonType value := fun heq => hne heq.symm
    refine h (.inl ⟨rfl, .inr ?_⟩)
    by_cases hstring : column.dataType = .string
    · exact .inr ⟨name, value, column, hvalue, hcolumn, hdiffers, hstring⟩
    · exact .inl ⟨name, value, column, hvalue, hcolumn, hdiffers, hstring⟩

/-- Whether there are unknown columns depends on the names of the columns only. -/
theorem unknown_iff_keys {schema other : Schema} (h : schema.columns.keys = other.columns.keys)
    (fields : Fields) : Unknown schema fields ↔ Unknown other fields := by
  unfold Unknown
  simp only [OrderedDict.get?_eq_none_iff, h]

variable {digest}

omit [DecidableEq H] in
/-- Under FREEZE and DISCARD_ROW the content of the first schema is kept. -/
theorem Keeps.content_eq (hdigest : Function.Injective digest) {contract : SchemaContract}
    {initial schema : Schema} (h : Keeps digest contract initial schema)
    (hcontract : contract = .freeze ∨ contract = .discardRow) :
    schema.content = initial.content := by
  rcases hcontract with rfl | rfl
  · exact hdigest h
  · exact hdigest h

omit [DecidableEq H] in
/-- A record that is merged is processed as the contract says where it meets the condition. -/
theorem meets_iff_merged (hdigest : Function.Injective digest) {contract : SchemaContract}
    {initial schema merged : Schema} {record : Record}
    (hkeeps : Keeps digest contract initial schema)
    (hnot : ¬ Rejects contract schema (candidateFields contract schema record))
    (hmerged : Merged contract schema (candidateFields contract schema record) merged) :
    (Keeps digest contract initial merged ∧
      Forwards contract schema merged record (some (candidateOf contract schema record)) ∧
      (schema.version < merged.version ↔ merged.hash digest ≠ schema.hash digest)) ↔
    Meets contract schema (candidateFields contract schema record) := by
  have hhash : merged.hash digest ≠ schema.hash digest ↔ ¬ merged.content = schema.content :=
    hdigest.ne_iff
  have hversion : schema.version < merged.version ↔
      Widens schema (candidateFields contract schema record) ∨
      Clashes schema (candidateFields contract schema record) ∨
      (contract ≠ .discardRow ∧ Unknown schema (candidateFields contract schema record)) := by
    rcases hmerged.version with ⟨h, hchanges⟩ | ⟨h, hchanges⟩
    · exact iff_of_true (by omega) hchanges
    · exact iff_of_false (by omega) hchanges
  have hinitial : contract = .freeze ∨ contract = .discardRow →
      (merged.hash digest = initial.hash digest ↔ merged.content = schema.content) := by
    intro hcontract
    rw [hkeeps.content_eq hdigest hcontract]
    exact hdigest.eq_iff
  have hcontent := hmerged.content_iff
  rw [hversion, hhash]
  cases contract with
  | evolve =>
    dsimp only [Keeps, Forwards, Meets]
    rw [hcontent]
    simp only [ne_eq, reduceCtorEq, not_false_eq_true, true_and]
    grind
  | freeze =>
    have hsame := hinitial (.inl rfl)
    rw [candidateFields_of_ne (by decide)] at hnot hcontent ⊢
    have hconforms := conforms_of_not_rejects hnot
    have hunknown := hconforms.not_unknown
    dsimp only [Keeps, Forwards, Meets]
    rw [hsame, hcontent]
    simp only [Option.isSome_some, hconforms, hunknown, ne_eq, reduceCtorEq, not_false_eq_true,
      and_false, or_false, forall_true_left, and_true, true_and]
    grind
  | discardRow =>
    have hsame := hinitial (.inr rfl)
    rw [candidateFields_of_ne (by decide)] at hnot hcontent ⊢
    have hconforms : Conforms schema (extractRecordFields record) := by
      by_contra hno
      exact hnot (.inr ⟨rfl, hno⟩)
    have hsent : merged.content = schema.content →
        ∀ sent, some (candidateOf .discardRow schema record) = some sent →
          Conforms merged (extractRecordFields sent) := by
      rintro heq sent ⟨⟩
      exact hconforms.of_content_eq heq.symm
    dsimp only [Keeps, Forwards, Meets]
    rw [hsame]
    rw [hcontent] at hsent ⊢
    simp only [hconforms, ne_eq, not_true_eq_false, reduceCtorEq, false_and, or_false,
      not_false_eq_true, forall_true_left, and_true] at hsent ⊢
    grind
  | discardColumn =>
    have hkeys := hmerged.keys (by decide)
    have hsent : (∀ sent, some (candidateOf .discardColumn schema record) = some sent →
          ¬ Unknown merged (extractRecordFields sent)) ↔
        ¬ Unknown schema (candidateFields .discardColumn schema record) := by
      rw [← unknown_iff_keys hkeys]
      constructor
      · exact fun h => h _ rfl
      · rintro h sent ⟨⟩
        exact h
    dsimp only [Keeps, Forwards, Meets] at hkeeps ⊢
    rw [hsent, hcontent, hkeys]
    simp only [hkeeps, ne_eq, reduceCtorEq, not_false_eq_true, false_and, true_and, and_true]
    grind

omit [DecidableEq H] in
/-- A record that is rejected is processed as the contract says where it meets the condition. -/
theorem meets_iff_rejected {contract : SchemaContract} {initial schema : Schema} {record : Record}
    (hkeeps : Keeps digest contract initial schema)
    (hrejects : Rejects contract schema (candidateFields contract schema record)) :
    (Keeps digest contract initial schema ∧ Forwards contract schema schema record none ∧
      (schema.version < schema.version ↔ schema.hash digest ≠ schema.hash digest)) ↔
    Meets contract schema (candidateFields contract schema record) := by
  have hversion : schema.version < schema.version ↔ schema.hash digest ≠ schema.hash digest :=
    iff_of_false (lt_irrefl _) (not_not.mpr rfl)
  rcases hrejects with ⟨rfl, hdiffers⟩ | ⟨rfl, hnot⟩
  · rw [candidateFields_of_ne (by decide)] at hdiffers ⊢
    have hnone : (none : Option Record).isSome = true ↔ False := by simp
    have hunknown : Conforms schema (extractRecordFields record) →
        ¬ Unknown schema (extractRecordFields record) := Conforms.not_unknown
    dsimp only [Forwards, Meets]
    rw [hnone]
    grind
  · rw [candidateFields_of_ne (by decide)] at hnot ⊢
    refine iff_of_true ⟨hkeeps, ?_, hversion⟩ fun hconforms => absurd hconforms hnot
    exact fun sent hsent => absurd hsent nofun

/-! ### One record -/

namespace SchemaProcessor

/-- A record that is rejected leaves the schema as it is, and any other one is merged into it. -/
theorem exists_advance (hdigest : Function.Injective digest) {processor : SchemaProcessor}
    {schema : Schema} (hschema : processor.currentSchema = some schema) (record : Record) :
    (processor.advance digest record).contract = processor.contract ∧
      ∃ schema', (processor.advance digest record).currentSchema = some schema' ∧
        ((Rejects processor.contract schema (candidateFields processor.contract schema record) ∧
            schema' = schema) ∨
          (¬ Rejects processor.contract schema
              (candidateFields processor.contract schema record) ∧
            Merged processor.contract schema
              (candidateFields processor.contract schema record) schema')) := by
  obtain ⟨next, result, hprocess, hcontract, hcases⟩ :=
    process_spec digest hdigest hschema record
  have hadvance : processor.advance digest record = next := by
    rw [advance, hprocess]
  rw [hadvance]
  refine ⟨hcontract, ?_⟩
  rcases hcases with ⟨hrejects, hnext, -⟩ | ⟨hnot, merged, hnext, -, hmerged⟩
  · exact ⟨schema, hnext, .inl ⟨hrejects, rfl⟩⟩
  · exact ⟨merged, hnext, .inr ⟨hnot, hmerged⟩⟩

end SchemaProcessor

/-- The step for one record is right exactly under the condition on that record. -/
theorem stepRight_iff (hdigest : Function.Injective digest) {initial schema : Schema}
    {processor : SchemaProcessor} (hschema : processor.currentSchema = some schema)
    (hkeeps : Keeps digest processor.contract initial schema) (record : Record) :
    StepRight digest initial processor record ↔ StepMeets processor record := by
  obtain ⟨next, result, hprocess, -, hcases⟩ := processor.process_spec digest hdigest hschema record
  have hright : ∀ {schema' forwarded}, next.currentSchema = some schema' →
      result.record = forwarded → (StepRight digest initial processor record ↔
        Keeps digest processor.contract initial schema' ∧
        Forwards processor.contract schema schema' record forwarded ∧
        (schema.version < schema'.version ↔ schema'.hash digest ≠ schema.hash digest)) := by
    rintro schema' forwarded hnext rfl
    constructor
    · rintro ⟨schema₁, next₁, result₁, schema₂, hschema₁, hprocess₁, hnext₁, hstep⟩
      rw [hschema, Option.some.injEq] at hschema₁
      rw [hprocess, Except.ok.injEq, Prod.mk.injEq] at hprocess₁
      obtain ⟨rfl, rfl⟩ := hprocess₁
      rw [hnext, Option.some.injEq] at hnext₁
      rw [hschema₁, hnext₁]
      exact hstep
    · exact fun hstep => ⟨schema, next, result, schema', hschema, hprocess, hnext, hstep⟩
  have hmeets : StepMeets processor record ↔ Meets processor.contract schema
      (candidateFields processor.contract schema record) := by
    unfold StepMeets
    rw [hschema]
    simp
  rw [hmeets]
  rcases hcases with ⟨hrejects, hnext, hnone⟩ | ⟨hnot, merged, hnext, hsome, hmerged⟩
  · exact (hright hnext hnone).trans (meets_iff_rejected hkeeps hrejects)
  · exact (hright hnext hsome).trans (meets_iff_merged hdigest hkeeps hnot hmerged)

/-- A record that is processed as the contract says leaves what it keeps. -/
theorem StepRight.keeps {initial : Schema} {processor : SchemaProcessor} {record : Record}
    (h : StepRight digest initial processor record) : ∃ schema',
      (processor.advance digest record).currentSchema = some schema' ∧
      Keeps digest processor.contract initial schema' := by
  obtain ⟨schema, next, result, schema', -, hprocess, hnext, hkeeps, -⟩ := h
  refine ⟨schema', ?_, hkeeps⟩
  rw [SchemaProcessor.advance, hprocess]
  exact hnext

/-- Every record is processed as the contract says exactly when every record meets the condition. -/
theorem atEvery_stepRight_iff (hdigest : Function.Injective digest) {initial schema : Schema}
    {processor : SchemaProcessor} (hschema : processor.currentSchema = some schema)
    (hkeeps : Keeps digest processor.contract initial schema) (records : List Record) :
    AtEvery digest (StepRight digest initial) processor records ↔
      AtEvery digest StepMeets processor records := by
  induction records generalizing processor schema with
  | nil => exact Iff.rfl
  | cons record records ih =>
    have hstep := stepRight_iff hdigest hschema hkeeps record
    unfold AtEvery
    rw [← hstep]
    refine and_congr_right fun hright => ?_
    obtain ⟨schema', hschema', hkeeps'⟩ := hright.keeps
    have hcontract := (processor.exists_advance hdigest hschema record).1
    rw [← hcontract] at hkeeps'
    exact ih hschema' hkeeps'

/-! ### The same records again -/

/-- The records processed a second time leave the content and the version alone. -/
def Unchanged (digest : SchemaContent → H) (processor : SchemaProcessor) (records : List Record) :
    Prop :=
  ∃ schema again, (processor.run digest records).currentSchema = some schema ∧
    ((processor.run digest records).run digest records).currentSchema = some again ∧
    again.hash digest = schema.hash digest ∧ again.version = schema.version

/-- No field of a record has another type than its column after the records. -/
def MeetsAgain (digest : SchemaContent → H) (processor : SchemaProcessor) (records : List Record) :
    Prop :=
  processor.contract = .evolve ∨ processor.contract = .discardColumn →
    ∀ schema, (processor.run digest records).currentSchema = some schema → ∀ record ∈ records,
      ¬ Widens schema (candidateFields processor.contract schema record) ∧
      ¬ Clashes schema (candidateFields processor.contract schema record)

/-- A run begins with the step for its first record. -/
theorem run_cons (processor : SchemaProcessor) (record : Record) (records : List Record) :
    processor.run digest (record :: records) =
      (processor.advance digest record).run digest records := rfl

/-- A run keeps the contract and ends with a schema of no lower version. -/
theorem exists_run (hdigest : Function.Injective digest) {processor : SchemaProcessor}
    {schema : Schema} (hschema : processor.currentSchema = some schema) (records : List Record) :
    (processor.run digest records).contract = processor.contract ∧
      ∃ schema', (processor.run digest records).currentSchema = some schema' ∧
        schema.version ≤ schema'.version := by
  induction records generalizing processor schema with
  | nil => exact ⟨rfl, schema, hschema, le_rfl⟩
  | cons record records ih =>
    obtain ⟨hcontract, next, hnext, hcases⟩ := processor.exists_advance hdigest hschema record
    obtain ⟨hcontract', schema', hschema', hle⟩ := ih hnext
    have hversion : schema.version ≤ next.version := by
      rcases hcases with ⟨-, rfl⟩ | ⟨-, hmerged⟩
      · exact le_rfl
      · rcases hmerged.version with ⟨h, -⟩ | ⟨h, -⟩
        · omega
        · exact h.ge
    rw [run_cons]
    exact ⟨hcontract'.trans hcontract, schema', hschema', hversion.trans hle⟩

section

variable {contract : SchemaContract} (hcontract : contract = .freeze ∨ contract = .discardRow)

include hcontract

omit [DecidableEq H] in
/-- The condition on a record depends on the content of the schema only. -/
theorem meets_of_content_eq {schema other : Schema} (h : schema.content = other.content)
    {fields : Fields} (hmeets : Meets contract schema fields) : Meets contract other fields := by
  have hkept : (Conforms schema fields → ¬ Widens schema fields ∧ ¬ Clashes schema fields ∧
      ¬ Loosens schema fields) → Conforms other fields → ¬ Widens other fields ∧
      ¬ Clashes other fields ∧ ¬ Loosens other fields := by
    intro hkept hconforms
    obtain ⟨hwidens, hclashes, hloosens⟩ := hkept (hconforms.of_content_eq h.symm)
    exact ⟨hwidens ∘ Widens.of_content_eq h.symm, hclashes ∘ Clashes.of_content_eq h.symm,
      hloosens ∘ Loosens.of_content_eq h.symm⟩
  rcases hcontract with rfl | rfl
  · exact hkept hmeets
  · exact hkept hmeets

omit [DecidableEq H] in
/-- Nothing happens to a schema that is not to change where the condition is met. -/
theorem merged_frozen {schema merged : Schema} {record : Record}
    (hmeets : Meets contract schema (candidateFields contract schema record))
    (hnot : ¬ Rejects contract schema (candidateFields contract schema record))
    (hmerged : Merged contract schema (candidateFields contract schema record) merged) :
    merged.content = schema.content ∧ merged.version = schema.version := by
  have hconforms : Conforms schema (candidateFields contract schema record) := by
    rcases hcontract with rfl | rfl
    · exact conforms_of_not_rejects hnot
    · by_contra hno
      exact hnot (.inr ⟨rfl, hno⟩)
  have hkept : ¬ Widens schema (candidateFields contract schema record) ∧
      ¬ Clashes schema (candidateFields contract schema record) ∧
      ¬ Loosens schema (candidateFields contract schema record) := by
    rcases hcontract with rfl | rfl
    · exact hmeets hconforms
    · exact hmeets hconforms
  obtain ⟨hwidens, hclashes, hloosens⟩ := hkept
  have hunknown := hconforms.not_unknown
  refine ⟨hmerged.content_iff.mpr ⟨hwidens, hloosens, fun h => hunknown h.2⟩, ?_⟩
  rcases hmerged.version with ⟨-, h | h | h⟩ | ⟨h, -⟩
  · exact absurd h hwidens
  · exact absurd h hclashes
  · exact absurd h.2 hunknown
  · exact h

/-- A record that meets the condition leaves a frozen schema at its content. -/
theorem advance_frozen (hdigest : Function.Injective digest) {processor : SchemaProcessor}
    (hprocessor : processor.contract = contract) {initial schema : Schema}
    (hschema : processor.currentSchema = some schema) (hcontent : schema.content = initial.content)
    {record : Record} (hmeets : Meets contract initial (extractRecordFields record)) :
    (processor.advance digest record).contract = contract ∧
      ∃ schema', (processor.advance digest record).currentSchema = some schema' ∧
        schema'.content = initial.content ∧ schema'.version = schema.version := by
  subst hprocessor
  have hne : processor.contract ≠ .discardColumn := by
    rcases hcontract with h | h <;> rw [h] <;> decide
  obtain ⟨hsame, schema', hschema', hcases⟩ := processor.exists_advance hdigest hschema record
  refine ⟨hsame, schema', hschema', ?_⟩
  rcases hcases with ⟨-, rfl⟩ | ⟨hnot, hmerged⟩
  · exact ⟨hcontent, rfl⟩
  · have hmeets' := meets_of_content_eq hcontract hcontent.symm hmeets
    rw [← candidateFields_of_ne hne schema record] at hmeets'
    obtain ⟨hmerged', hversion⟩ := merged_frozen hcontract hmeets' hnot hmerged
    exact ⟨hmerged'.trans hcontent, hversion⟩

/-- So does a run of them. -/
theorem run_frozen (hdigest : Function.Injective digest) {processor : SchemaProcessor}
    (hprocessor : processor.contract = contract) {initial schema : Schema}
    (hschema : processor.currentSchema = some schema) (hcontent : schema.content = initial.content)
    {records : List Record}
    (hmeets : ∀ record ∈ records, Meets contract initial (extractRecordFields record)) :
    ∃ schema', (processor.run digest records).currentSchema = some schema' ∧
      schema'.content = initial.content ∧ schema'.version = schema.version := by
  induction records generalizing processor schema with
  | nil => exact ⟨schema, hschema, hcontent, rfl⟩
  | cons record records ih =>
    obtain ⟨hfirst, hrest⟩ := List.forall_mem_cons.mp hmeets
    obtain ⟨hnext, next, hcurrent, hcontent', hversion⟩ :=
      advance_frozen hcontract hdigest hprocessor hschema hcontent hfirst
    obtain ⟨schema', hschema', hcontent'', hversion'⟩ := ih hnext hcurrent hcontent' hrest
    rw [run_cons]
    exact ⟨schema', hschema', hcontent'', hversion'.trans hversion⟩

/-- A condition that holds at every step of a frozen run holds of all records at once. -/
theorem meets_of_atEvery (hdigest : Function.Injective digest) {processor : SchemaProcessor}
    (hprocessor : processor.contract = contract) {initial schema : Schema}
    (hschema : processor.currentSchema = some schema) (hcontent : schema.content = initial.content)
    {records : List Record} (hmeets : AtEvery digest StepMeets processor records) :
    ∀ record ∈ records, Meets contract initial (extractRecordFields record) := by
  induction records generalizing processor schema with
  | nil => exact fun record hrecord => absurd hrecord List.not_mem_nil
  | cons record records ih =>
    obtain ⟨hstep, hrest⟩ := hmeets
    have hne : contract ≠ .discardColumn := by
      rcases hcontract with h | h <;> rw [h] <;> decide
    have hfirst : Meets contract initial (extractRecordFields record) := by
      have h := hstep schema hschema
      rw [hprocessor, candidateFields_of_ne hne] at h
      exact meets_of_content_eq hcontract hcontent h
    obtain ⟨hnext, next, hcurrent, hcontent', -⟩ :=
      advance_frozen hcontract hdigest hprocessor hschema hcontent hfirst
    exact List.forall_mem_cons.mpr ⟨hfirst, ih hnext hcurrent hcontent' hrest⟩

end

section

variable {contract : SchemaContract}
  (hcontract : contract = .evolve ∨ contract = .discardColumn)

include hcontract

/-- Under the open contracts a record is merged into the schema. -/
theorem advance_open (hdigest : Function.Injective digest) {processor : SchemaProcessor}
    (hprocessor : processor.contract = contract) {schema : Schema}
    (hschema : processor.currentSchema = some schema) (record : Record) :
    (processor.advance digest record).contract = contract ∧
      ∃ schema', (processor.advance digest record).currentSchema = some schema' ∧
        Merged contract schema (candidateFields contract schema record) schema' := by
  subst hprocessor
  obtain ⟨hsame, schema', hschema', hcases⟩ := processor.exists_advance hdigest hschema record
  refine ⟨hsame, schema', hschema', ?_⟩
  rcases hcases with ⟨⟨hfreeze, -⟩ | ⟨hrow, -⟩, -⟩ | ⟨-, hmerged⟩
  · rcases hcontract with h | h <;> rw [h] at hfreeze <;> exact absurd hfreeze nofun
  · rcases hcontract with h | h <;> rw [h] at hrow <;> exact absurd hrow nofun
  · exact hmerged

/-- The schema covers every record that it has seen. -/
theorem run_covers (hdigest : Function.Injective digest) {processor : SchemaProcessor}
    (hprocessor : processor.contract = contract) {schema : Schema}
    (hschema : processor.currentSchema = some schema) {records : List Record}
    (hmeets : AtEvery digest StepMeets processor records) :
    ∃ schema', (processor.run digest records).currentSchema = some schema' ∧
      Below schema schema' ∧
      (contract = .discardColumn → schema'.columns.keys = schema.columns.keys) ∧
      ∀ record ∈ records, Covers schema' (candidateFields contract schema' record) := by
  induction records generalizing processor schema with
  | nil =>
    exact ⟨schema, hschema, Below.refl schema, fun _ => rfl,
      fun record hrecord => absurd hrecord List.not_mem_nil⟩
  | cons record records ih =>
    obtain ⟨hstep, hrest⟩ := hmeets
    obtain ⟨hnext, next, hcurrent, hmerged⟩ :=
      advance_open hcontract hdigest hprocessor hschema record
    obtain ⟨schema', hschema', hbelow, hkeys, hcovers⟩ := ih hnext hcurrent hrest
    have hkeys' : contract = .discardColumn → schema'.columns.keys = schema.columns.keys := by
      intro h
      exact (hkeys h).trans (hmerged.keys (by rw [h]; decide))
    have hknown : contract = .evolve ∨
        ¬ Unknown schema (candidateFields contract schema record) := by
      have h := hstep schema hschema
      rw [hprocessor] at h
      refine hcontract.imp id fun hcolumn => ?_
      subst hcolumn
      exact h.1
    have hcovered := (hmerged.covers hknown).mono hbelow
    rw [← candidateFields_congr hkeys' record] at hcovered
    rw [run_cons]
    exact ⟨schema', hschema', hmerged.below.trans hbelow, hkeys',
      List.forall_mem_cons.mpr ⟨hcovered, hcovers⟩⟩

/-- Records that a schema covers change it exactly where a field has a type below its column's. -/
theorem run_again (hdigest : Function.Injective digest) {processor : SchemaProcessor}
    (hprocessor : processor.contract = contract) {last schema : Schema}
    (hschema : processor.currentSchema = some schema) (hcontent : schema.content = last.content)
    (hkeys : contract = .discardColumn → schema.columns.keys = last.columns.keys)
    {records : List Record}
    (hcovers : ∀ record ∈ records, Covers last (candidateFields contract last record)) :
    ∃ schema', (processor.run digest records).currentSchema = some schema' ∧
      ((schema'.content = last.content ∧ schema'.version = schema.version) ↔
        ∀ record ∈ records, ¬ Widens last (candidateFields contract last record) ∧
          ¬ Clashes last (candidateFields contract last record)) := by
  induction records generalizing processor schema with
  | nil =>
    exact ⟨schema, hschema, iff_of_true ⟨hcontent, rfl⟩
      fun record hrecord => absurd hrecord List.not_mem_nil⟩
  | cons record records ih =>
    obtain ⟨hfirst, hrest⟩ := List.forall_mem_cons.mp hcovers
    obtain ⟨hnext, next, hcurrent, hmerged⟩ :=
      advance_open hcontract hdigest hprocessor hschema record
    rw [candidateFields_congr hkeys record] at hmerged
    have hcovered := hfirst.mono (Below.of_content_eq hcontent.symm)
    have hunknown := hcovered.not_unknown
    rw [run_cons, List.forall_mem_cons]
    by_cases hdiffers : Widens schema (candidateFields contract last record) ∨
        Clashes schema (candidateFields contract last record)
    · -- the version has gone up, and no record brings it back
      obtain ⟨-, schema', hschema', hle⟩ := exists_run hdigest hcurrent records
      have hversion : next.version = schema.version + 1 := by
        rcases hmerged.version with ⟨h, -⟩ | ⟨-, h⟩
        · exact h
        · exact absurd (hdiffers.elim .inl fun h => .inr (.inl h)) h
      refine ⟨schema', hschema', iff_of_false (fun h => ?_) fun h => ?_⟩
      · have hsame := h.2
        omega
      · exact hdiffers.elim (h.1.1 ∘ Widens.of_content_eq hcontent)
          (h.1.2 ∘ Clashes.of_content_eq hcontent)
    · obtain ⟨hwidens, hclashes⟩ := not_or.mp hdiffers
      have hcontent' : next.content = schema.content :=
        hmerged.content_iff.mpr ⟨hwidens, hcovered.not_loosens, fun h => hunknown h.2⟩
      have hversion : next.version = schema.version := by
        rcases hmerged.version with ⟨-, h | h | h⟩ | ⟨h, -⟩
        · exact absurd h hwidens
        · exact absurd h hclashes
        · exact absurd h.2 hunknown
        · exact h
      have hkeys' : contract = .discardColumn → next.columns.keys = last.columns.keys := by
        intro h
        exact (hmerged.keys (by rw [h]; decide)).trans (hkeys h)
      obtain ⟨schema', hschema', hiff⟩ :=
        ih hnext hcurrent (hcontent'.trans hcontent) hkeys' hrest
      refine ⟨schema', hschema', ?_⟩
      rw [hversion] at hiff
      rw [hiff]
      refine (and_iff_right ⟨?_, ?_⟩).symm
      · exact hwidens ∘ Widens.of_content_eq hcontent.symm
      · exact hclashes ∘ Clashes.of_content_eq hcontent.symm

end

/-! ### The contracts -/

/-- A processor that has loaded a schema. -/
def loaded (table : String) (contract : SchemaContract) (initial : Schema) : SchemaProcessor :=
  ({ table := table, contract := contract } : SchemaProcessor).loadSchema (some initial)

/-- Every record is processed as the contract says, and the same records again change nothing. -/
def ContractKept (digest : SchemaContent → H) (table : String) (contract : SchemaContract)
    (initial : Schema) (records : List Record) : Prop :=
  AtEvery digest (StepRight digest initial) (loaded table contract initial) records ∧
    Unchanged digest (loaded table contract initial) records

/-- The second pass changes nothing exactly where the records meet their condition again. -/
theorem unchanged_iff (hdigest : Function.Injective digest) {table : String}
    {contract : SchemaContract} {initial : Schema} {records : List Record}
    (hmeets : AtEvery digest StepMeets (loaded table contract initial) records) :
    Unchanged digest (loaded table contract initial) records ↔
      MeetsAgain digest (loaded table contract initial) records := by
  have hloaded : (loaded table contract initial).currentSchema = some initial := rfl
  have hsame := (exists_run hdigest hloaded records).1
  by_cases hcontract : contract = .freeze ∨ contract = .discardRow
  · have hall := meets_of_atEvery hcontract hdigest rfl hloaded rfl hmeets
    obtain ⟨schema, hschema, hcontent, -⟩ :=
      run_frozen hcontract hdigest rfl hloaded rfl hall
    obtain ⟨again, hagain, hcontent', hversion⟩ :=
      run_frozen hcontract hdigest hsame hschema hcontent hall
    refine iff_of_true ⟨schema, again, hschema, hagain, ?_, hversion⟩ fun hopen => ?_
    · exact congrArg digest (hcontent'.trans hcontent.symm)
    · have hopen' : contract = .evolve ∨ contract = .discardColumn := hopen
      rcases hcontract with h | h <;> rw [h] at hopen' <;> exact absurd hopen' (by decide)
  · have hopen : contract = .evolve ∨ contract = .discardColumn := by
      cases contract <;> simp_all
    obtain ⟨schema, hschema, -, -, hcovers⟩ :=
      run_covers hopen hdigest rfl hloaded hmeets
    obtain ⟨again, hagain, hiff⟩ :=
      run_again hopen hdigest hsame hschema rfl (fun _ => rfl) hcovers
    constructor
    · rintro ⟨schema', again', hschema', hagain', hhash, hversion⟩ -
      rw [hschema, Option.some.injEq] at hschema'
      rw [hagain, Option.some.injEq] at hagain'
      subst hschema' hagain'
      intro schema' hschema'
      rw [hschema, Option.some.injEq] at hschema'
      subst hschema'
      exact hiff.mp ⟨hdigest hhash, hversion⟩
    · intro h
      obtain ⟨hcontent, hversion⟩ := hiff.mpr (h hopen schema hschema)
      exact ⟨schema, again, hschema, hagain, congrArg digest hcontent, hversion⟩

/-- A contract is kept exactly when every record meets the condition and, unless the contract keeps
the schema as it is, every record has the types of the columns after the run. -/
theorem contractKept_iff (hdigest : Function.Injective digest) (table : String)
    (contract : SchemaContract) (initial : Schema) (records : List Record) :
    ContractKept digest table contract initial records ↔
      AtEvery digest StepMeets (loaded table contract initial) records ∧
        MeetsAgain digest (loaded table contract initial) records := by
  have hkeeps : Keeps digest contract initial initial := by
    cases contract <;> simp [Keeps]
  have hloaded : (loaded table contract initial).currentSchema = some initial := rfl
  have hsteps := atEvery_stepRight_iff hdigest hloaded hkeeps records
  rw [ContractKept, hsteps]
  exact and_congr_right fun hmeets => unchanged_iff hdigest hmeets

end

/-- A schema with one column. -/
def oneColumn (type : DataType) : Schema where
  table := "t"
  columns := OrderedDict.ofEntries [("x", ⟨"x", type, true, 1⟩)]

/-- The record of one field has that field only. -/
theorem get?_single {value found : PyValue} {name : String}
    (h : (extractRecordFields (single value)).get? name = some found) :
    name = "x" ∧ found = value := by
  rw [← OrderedDict.mem_entries_iff] at h
  have hentry : (name, found) = ("x", value) := List.mem_singleton.mp h
  exact Prod.mk.inj hentry

/-- The column of the records with one value. -/
def numbers : Column := ⟨"x", .integer, true, 1⟩

/-- What a value finds in a column of numbers. -/
theorem column_single {schema : Schema} (hcolumn : schema.columns.get? "x" = some numbers)
    {value found : PyValue} {name : String} {column : Column}
    (hvalue : (extractRecordFields (single value)).get? name = some found)
    (hfound : schema.columns.get? name = some column) : found = value ∧ column = numbers := by
  obtain ⟨rfl, rfl⟩ := get?_single hvalue
  exact ⟨rfl, (Option.some.inj (hcolumn.symm.trans hfound)).symm⟩

/-- A number agrees with a column of numbers. -/
theorem agrees_single {schema : Schema} (hcolumn : schema.columns.get? "x" = some numbers)
    {value : PyValue} (hvalue : inferPythonType value = .integer) :
    ¬ Widens schema (extractRecordFields (single value)) ∧
      ¬ Clashes schema (extractRecordFields (single value)) ∧
      ¬ Loosens schema (extractRecordFields (single value)) := by
  refine ⟨?_, ?_, ?_⟩
  · rintro ⟨name, found, column, hfound, hcolumn', hne, -⟩
    obtain ⟨rfl, rfl⟩ := column_single hcolumn hfound hcolumn'
    exact hne hvalue.symm
  · rintro ⟨name, found, column, hfound, hcolumn', hne, -⟩
    obtain ⟨rfl, rfl⟩ := column_single hcolumn hfound hcolumn'
    exact hne hvalue.symm
  · rintro ⟨name, found, column, hfound, hcolumn', hnullable⟩
    obtain ⟨rfl, rfl⟩ := column_single hcolumn hfound hcolumn'
    cases hnullable

/-- A value that is not null meets a column of numbers: it is one, or it is rejected. -/
theorem meets_single {schema : Schema} (hcolumn : schema.columns.get? "x" = some numbers)
    {value : PyValue} (hvalue : inferPythonType value ≠ .null) :
    Meets .freeze schema (extractRecordFields (single value)) := by
  intro hconforms
  refine agrees_single hcolumn ?_
  obtain ⟨column, hfound, hnull | htype⟩ := hconforms "x" value rfl
  · exact absurd hnull hvalue
  · have hfields : (extractRecordFields (single value)).get? "x" = some value := rfl
    rw [htype, (column_single hcolumn hfields hfound).2]
    rfl

/-- Numbers in a column of numbers change nothing, and what is no number is rejected under `FREEZE`; a
contract that lets the schema evolve keeps it too when the same numbers come again. -/
theorem contractKept_integers :
    (((loaded "t" .freeze (oneColumn .integer)).process id (single (.str "a"))).map
        fun step => step.2.record) = .ok none ∧
      ContractKept id "t" .freeze (oneColumn .integer)
        [single (.int 1), single (.str "a"), single (.int 2)] ∧
      ContractKept id "t" .evolve (oneColumn .integer) [single (.int 1), single (.int 2)] := by
  have hcolumn : (oneColumn .integer).columns.get? "x" = some numbers := by decide
  refine ⟨rfl, ?_, ?_⟩
  · refine (contractKept_iff Function.injective_id "t" .freeze (oneColumn .integer) _).mpr
      ⟨⟨?_, ?_, ?_, trivial⟩, fun hopen => absurd hopen (by decide)⟩
    · rintro schema ⟨⟩
      exact meets_single hcolumn (by decide)
    · rintro schema ⟨⟩
      exact meets_single hcolumn (by decide)
    · rintro schema ⟨⟩
      exact meets_single hcolumn (by decide)
  · refine (contractKept_iff Function.injective_id "t" .evolve (oneColumn .integer) _).mpr
      ⟨⟨?_, ?_, trivial⟩, ?_⟩
    · rintro schema ⟨⟩ - -
      obtain ⟨-, hclashes, hloosens⟩ :=
        agrees_single hcolumn (show inferPythonType (.int 1) = .integer from rfl)
      exact iff_of_false hclashes hloosens
    · rintro schema ⟨⟩ - -
      obtain ⟨-, hclashes, hloosens⟩ :=
        agrees_single hcolumn (show inferPythonType (.int 2) = .integer from rfl)
      exact iff_of_false hclashes hloosens
    · rintro - schema ⟨⟩ record hrecord
      rcases List.mem_cons.mp hrecord with rfl | hrecord
      · exact ((agrees_single hcolumn rfl).imp_right And.left)
      · obtain rfl := List.mem_singleton.mp hrecord
        exact ((agrees_single hcolumn rfl).imp_right And.left)

/-- A null is rejected under `FREEZE`; a number in a `string` column raises the version and leaves the
content; and what widens a column to `float` makes it a `string` when it comes again. -/
theorem not_contractKept :
    ¬ ContractKept id "t" .freeze (oneColumn .integer) [single .none] ∧
    ¬ ContractKept id "t" .evolve (oneColumn .string) [single (.int 1)] ∧
    ¬ Unchanged id (loaded "t" .evolve (oneColumn .integer)) [single (.int 1), single (.float 1)] := by
  refine ⟨?_, ?_, ?_⟩
  · rintro ⟨⟨⟨schema, next, result, schema', ⟨⟩, hprocess, -, -, hforwards, -⟩, -⟩, -⟩
    have hresult : ((loaded "t" .freeze (oneColumn .integer)).process id (single .none)).map
        (fun step => step.2.record.isSome) = .ok false := by rfl
    rw [hprocess] at hresult
    have hnone : result.record.isSome = false := Except.ok.inj hresult
    have hsome : result.record.isSome = true := by
      refine hforwards.mpr fun name value hvalue => ?_
      obtain ⟨rfl, rfl⟩ := get?_single hvalue
      exact ⟨⟨"x", .integer, true, 1⟩, by decide, .inl rfl⟩
    exact absurd (hnone.symm.trans hsome) (by decide)
  · rintro ⟨⟨⟨schema, next, result, schema', ⟨⟩, hprocess, hnext, -, -, hversion⟩, -⟩, -⟩
    have hresult : ((loaded "t" .evolve (oneColumn .string)).process id (single (.int 1))).map
        (fun step => step.1.currentSchema.map fun schema => (schema.version, schema.content)) =
          .ok (some (2, (oneColumn .string).content)) := by rfl
    rw [hprocess] at hresult
    have hchanged : next.currentSchema.map (fun schema => (schema.version, schema.content)) =
        some (2, (oneColumn .string).content) := Except.ok.inj hresult
    rw [hnext] at hchanged
    obtain ⟨hincreased, hcontent⟩ := Prod.mk.inj (Option.some.inj hchanged)
    refine hversion.mp ?_ hcontent
    rw [hincreased]
    decide
  · rintro ⟨schema, again, hschema, hagain, -, hversion⟩
    have hfirst : ((loaded "t" .evolve (oneColumn .integer)).run id
        [single (.int 1), single (.float 1)]).currentSchema.map Schema.version = some 2 := by rfl
    have hsecond : (((loaded "t" .evolve (oneColumn .integer)).run id
        [single (.int 1), single (.float 1)]).run id
        [single (.int 1), single (.float 1)]).currentSchema.map Schema.version = some 4 := by rfl
    rw [hschema] at hfirst
    rw [hagain] at hsecond
    have hlow := Option.some.inj hfirst
    have hhigh := Option.some.inj hsecond
    omega

end AgoraEtl.Schemas
