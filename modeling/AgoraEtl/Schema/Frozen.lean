import AgoraEtl.Effect.Runs
import AgoraEtl.Schema.Reprocessing
import AgoraEtl.Schema.Store

/-!
# A frozen schema over several runs

`SchemaMiddleware` loads the stored schema at the start of a run and stores the current one at its end.
An exception of the load is logged, and the run goes on as if no schema were stored; so is one of a
record that cannot be read, which is forwarded as it is.

`frozen_of_meets` says in which sequences of runs a stored schema stays what it is.
-/

namespace AgoraEtl.Schemas

variable {H : Type} [DecidableEq H]

/-! ### The middleware -/

/-- What happens in a run: the records, where `none` is one that cannot be read, and whether the
backend raises. -/
structure SchemaRun where
  records : List (Option Record)
  getRaises : Bool
  setRaises : Bool

/-- The arguments of the middleware and of its store. -/
structure SchemaMiddleware (H : Type) where
  digest : SchemaContent → H
  storeContract : SchemaContract

namespace SchemaMiddleware

variable (m : SchemaMiddleware H)

/-- `on_start`. -/
def onStart (processor : SchemaProcessor) (stored : Option (StoredValue H)) (getRaises : Bool) :
    SchemaProcessor :=
  let cleared := processor.loadSchema none
  match if getRaises then .error .backend else load m.digest m.storeContract stored with
  | .ok schema => cleared.loadSchema schema
  | .error _ => cleared

/-- `process`: the processor after a record, and what is forwarded, which may be a record that cannot be
read. -/
def process (processor : SchemaProcessor) :
    Option Record → SchemaProcessor × Option (Option Record)
  | none => (processor, some none)
  | some record =>
    match processor.process m.digest record with
    | .ok (next, result) => (next, result.record.map some)
    | .error _ => (processor, some (some record))

/-- The records of a run, and those that are forwarded. -/
def processAll (processor : SchemaProcessor) :
    List (Option Record) → SchemaProcessor × List (Option Record)
  | [] => (processor, [])
  | record :: records =>
    let first := m.process processor record
    let rest := processAll first.1 records
    (rest.1, first.2.toList ++ rest.2)

/-- `on_stop`: what is stored afterwards. -/
def onStop (processor : SchemaProcessor) (stored : Option (StoredValue H)) (setRaises : Bool) :
    Option (StoredValue H) :=
  match processor.currentSchema with
  | some schema => if setRaises then stored else some (.dict (schema.toDict m.digest))
  | none => stored

/-! ### What runs are held to -/

/-- What is stored, the processor of the last run, and the records that were forwarded. -/
structure World (H : Type) where
  stored : Option (StoredValue H)
  processor : SchemaProcessor
  forwarded : List (Option Record)

def Step (w : World H) (run : SchemaRun) (w' : World H) : Prop :=
  let started := m.onStart w.processor w.stored run.getRaises
  let done := m.processAll started run.records
  w' = ⟨m.onStop done.1 w.stored run.setRaises, done.1, w.forwarded ++ done.2⟩

/-- A schema is stored, and can be loaded. -/
def Loads (stored : Option (StoredValue H)) (schema : Schema) : Prop :=
  load m.digest m.storeContract stored = .ok (some schema)

/-- The stored schema is not the one that its hash was taken of, and the load raises. -/
def Mismatched (stored : Option (StoredValue H)) : Prop :=
  ∃ table hash computed,
    load m.digest m.storeContract stored = .error (.hashMismatch table hash computed)

/-- A stored schema keeps its content, and what is forwarded conforms to it; one whose hash does not
match stays as it is. -/
def Frozen (stored : Option (StoredValue H)) (w : World H) : Prop :=
  (∀ schema, m.Loads stored schema →
    (∃ schema', m.Loads w.stored schema' ∧ schema'.content = schema.content) ∧
    ∀ forwarded ∈ w.forwarded, ∃ record, forwarded = some record ∧
      Conforms schema (extractRecordFields record)) ∧
  (m.Mismatched stored → w.stored = stored)

/-- The record has no fields. -/
def Empty (record : Record) : Prop := (extractRecordFields record).entries = []

/-- Where a schema can be loaded, all records can be read, and those that the contract accepts have
nullable columns; if the backend raises, they have no fields.  Where its hash does not match, nothing is
stored, or no record has fields. -/
def Meets (w : World H) (run : SchemaRun) : Prop :=
  (∀ schema, m.Loads w.stored schema → ∀ input ∈ run.records, ∃ record, input = some record ∧
    if run.getRaises then Empty record
    else ¬ Rejects .freeze schema (extractRecordFields record) →
      ¬ Loosens schema (extractRecordFields record)) ∧
  (m.Mismatched w.stored → run.setRaises = true ∨ ∀ record, some record ∈ run.records → Empty record)

/-! ### One run -/

variable {m} {processor : SchemaProcessor} {schema : Schema} {records : List (Option Record)}

omit [DecidableEq H] in
theorem rejects_of_content_eq {other : Schema} {fields : Fields}
    (h : schema.content = other.content) (hrejects : Rejects .freeze schema fields) :
    Rejects .freeze other fields := by
  obtain ⟨-, hfields⟩ | ⟨hcontract, -⟩ := hrejects
  · refine Or.inl ⟨rfl, ?_⟩
    obtain ⟨name, value, hvalue, hnone⟩ | hwidens | hclashes := hfields
    · refine Or.inl ⟨name, value, hvalue, ?_⟩
      by_contra hsome
      obtain ⟨column, hcolumn⟩ := Option.ne_none_iff_exists'.mp hsome
      obtain ⟨column', hcolumn', -⟩ := Schema.exists_get?_of_content_eq h.symm hcolumn
      exact absurd (hcolumn'.symm.trans hnone) nofun
    · exact Or.inr (Or.inl (hwidens.of_content_eq h))
    · exact Or.inr (Or.inr (hclashes.of_content_eq h))
  · exact absurd hcontract nofun

/-- With a schema, a record is rejected, or it conforms and is forwarded; and the content stays if
its columns are nullable. -/
theorem process_loaded (hdigest : Function.Injective m.digest)
    (hcontract : processor.contract = .freeze) (hschema : processor.currentSchema = some schema)
    {record : Record} (hmeets : ¬ Rejects .freeze schema (extractRecordFields record) →
      ¬ Loosens schema (extractRecordFields record)) :
    (m.process processor (some record)).1.contract = .freeze ∧
      (∃ schema', (m.process processor (some record)).1.currentSchema = some schema' ∧
        schema'.content = schema.content) ∧
      ∀ forwarded, (m.process processor (some record)).2 = some forwarded →
        forwarded = some record ∧ Conforms schema (extractRecordFields record) := by
  obtain ⟨next, result, hprocess, hnext, hcases⟩ :=
    SchemaProcessor.process_spec m.digest hdigest hschema record
  have hfields : candidateFields processor.contract schema record = extractRecordFields record :=
    candidateFields_of_ne (by rw [hcontract]; decide) schema record
  have hrun : m.process processor (some record) = (next, result.record.map some) := by
    rw [process, hprocess]
  rw [hrun]
  rw [hfields, hcontract] at hcases
  refine ⟨hnext.trans hcontract, ?_⟩
  obtain ⟨-, hcurrent, hnone⟩ | ⟨hnot, merged, hcurrent, hsent, hmerged⟩ := hcases
  · refine ⟨⟨schema, hcurrent, rfl⟩, ?_⟩
    rw [hnone]
    exact fun _ hforwarded => absurd hforwarded nofun
  · have hconforms := conforms_of_not_rejects hnot
    obtain ⟨hunknown, hwidens, -⟩ : ¬ Unknown schema (extractRecordFields record) ∧
        ¬ Widens schema (extractRecordFields record) ∧
        ¬ Clashes schema (extractRecordFields record) := by
      have hnone : ¬ (Unknown schema (extractRecordFields record) ∨
          Widens schema (extractRecordFields record) ∨
          Clashes schema (extractRecordFields record)) := fun h => hnot (Or.inl ⟨rfl, h⟩)
      rwa [not_or, not_or] at hnone
    refine ⟨⟨merged, hcurrent, ?_⟩, ?_⟩
    · exact hmerged.content_iff.mpr ⟨hwidens, hmeets hnot, fun h => hunknown h.2⟩
    · have hsame : candidateOf .freeze schema record = record := if_neg (by decide)
      rw [hsent, hsame]
      rintro forwarded ⟨⟩
      exact ⟨rfl, hconforms⟩

/-- A record without fields changes nothing and is forwarded. -/
theorem process_empty {record : Record} (hempty : Empty record)
    (hnone : processor.currentSchema = none) :
    (m.process processor (some record)).1.contract = processor.contract ∧
      (m.process processor (some record)).1.currentSchema = none ∧
      (m.process processor (some record)).2 = some (some record) := by
  have hinferred : (processor.inferRecordSchema record).columns.entries.isEmpty = true := by
    rw [List.isEmpty_iff, OrderedDict.entries_eq_nil_iff]
    intro name
    rw [SchemaProcessor.get?_inferRecordSchema, OrderedDict.entries_eq_nil_iff.mp hempty]
    rfl
  have hprocess : ∃ metrics, processor.process m.digest record =
      .ok ({ processor with metrics := metrics },
        { record := some record, schema := processor.currentSchema }) := by
    unfold SchemaProcessor.process SchemaProcessor.processCandidate
    rw [hnone]
    dsimp only
    rw [if_pos hinferred]
    exact ⟨_, rfl⟩
  obtain ⟨metrics, hprocess⟩ := hprocess
  rw [process, hprocess]
  exact ⟨rfl, hnone, rfl⟩

theorem process_contract (record : Option Record) :
    (m.process processor record).1.contract = processor.contract := by
  cases record with
  | none => rfl
  | some record =>
    have hprocess : ∀ next result, processor.process m.digest record = .ok (next, result) →
        next.contract = processor.contract := by
      intro next result h
      unfold SchemaProcessor.process SchemaProcessor.processCandidate at h
      dsimp only at h
      split_ifs at h <;> (repeat' split at h) <;> cases h <;> rfl
    unfold process
    dsimp only
    split
    next next result h => exact hprocess next result h
    next => rfl

theorem processAll_contract : (m.processAll processor records).1.contract = processor.contract := by
  induction records generalizing processor with
  | nil => rfl
  | cons record records ih =>
    rw [processAll]
    exact ih.trans (process_contract record)

/-- The records of a run that starts with a schema. -/
theorem processAll_loaded (hdigest : Function.Injective m.digest) {initial : Schema}
    (hcontract : processor.contract = .freeze) (hschema : processor.currentSchema = some schema)
    (hcontent : schema.content = initial.content)
    (hmeets : ∀ input ∈ records, ∃ record, input = some record ∧
      (¬ Rejects .freeze initial (extractRecordFields record) →
        ¬ Loosens initial (extractRecordFields record))) :
    (∃ schema', (m.processAll processor records).1.currentSchema = some schema' ∧
        schema'.content = initial.content) ∧
      ∀ forwarded ∈ (m.processAll processor records).2, ∃ record, forwarded = some record ∧
        Conforms initial (extractRecordFields record) := by
  induction records generalizing processor schema with
  | nil => exact ⟨⟨schema, hschema, hcontent⟩, fun _ hmem => absurd hmem List.not_mem_nil⟩
  | cons input records ih =>
    obtain ⟨⟨record, rfl, hrecord⟩, hrest⟩ := List.forall_mem_cons.mp hmeets
    have hrecord' : ¬ Rejects .freeze schema (extractRecordFields record) →
        ¬ Loosens schema (extractRecordFields record) := by
      intro hnot hloosens
      exact hrecord (fun hrejects => hnot (rejects_of_content_eq hcontent.symm hrejects))
        (hloosens.of_content_eq hcontent)
    obtain ⟨hnext, ⟨schema', hschema', hsame⟩, hsent⟩ :=
      process_loaded hdigest hcontract hschema hrecord'
    obtain ⟨hlast, hforwarded⟩ := ih hnext hschema' (hsame.trans hcontent) hrest
    rw [processAll]
    refine ⟨hlast, ?_⟩
    intro forwarded hmem
    obtain hmem | hmem := List.mem_append.mp hmem
    · obtain ⟨rfl, hconforms⟩ := hsent forwarded (Option.mem_toList.mp hmem)
      exact ⟨record, rfl, hconforms.of_content_eq hcontent⟩
    · exact hforwarded forwarded hmem

/-- Without a schema and without fields there is none at the end either. -/
theorem processAll_empty (hnone : processor.currentSchema = none)
    (hempty : ∀ record, some record ∈ records → Empty record) :
    (m.processAll processor records).1.currentSchema = none ∧
      ∀ forwarded ∈ (m.processAll processor records).2, forwarded ∈ records := by
  induction records generalizing processor with
  | nil => exact ⟨hnone, fun _ hmem => hmem⟩
  | cons input records ih =>
    obtain ⟨hnext, hsent⟩ : (m.process processor input).1.currentSchema = none ∧
        (m.process processor input).2 = some input := by
      cases input with
      | none => exact ⟨hnone, rfl⟩
      | some record => exact (process_empty (hempty record List.mem_cons_self) hnone).2
    obtain ⟨hlast, hforwarded⟩ :=
      ih hnext fun record hmem => hempty record (List.mem_cons_of_mem _ hmem)
    rw [processAll]
    refine ⟨hlast, ?_⟩
    rw [hsent]
    exact fun forwarded hmem => (List.mem_cons.mp hmem).elim (fun h => h ▸ List.mem_cons_self)
      fun hmem => List.mem_cons_of_mem _ (hforwarded forwarded hmem)

/-! ### Whole runs -/

theorem onStart_contract (stored : Option (StoredValue H)) (getRaises : Bool) :
    (m.onStart processor stored getRaises).contract = processor.contract := by
  unfold onStart
  dsimp only
  split <;> rfl

theorem onStart_loaded {stored : Option (StoredValue H)} (h : m.Loads stored schema) :
    (m.onStart processor stored false).currentSchema = some schema := by
  have hload : (if false = true then .error .backend else load m.digest m.storeContract stored) =
      .ok (some schema) := h
  rw [onStart, hload]
  rfl

theorem onStart_raises (stored : Option (StoredValue H)) :
    (m.onStart processor stored true).currentSchema = none := rfl

theorem onStart_mismatched {stored : Option (StoredValue H)} (h : m.Mismatched stored)
    (getRaises : Bool) : (m.onStart processor stored getRaises).currentSchema = none := by
  obtain ⟨table, hash, computed, hload⟩ := h
  cases getRaises with
  | true => rfl
  | false =>
    have hload' : (if false = true then .error .backend
        else load m.digest m.storeContract stored) = .error (.hashMismatch table hash computed) :=
      hload
    rw [onStart, hload']
    rfl

/-- What is stored at the end of a run is loaded at the start of the next. -/
theorem loads_onStop {stored : Option (StoredValue H)} {initial : Schema}
    (hschema : processor.currentSchema = some schema) (hcontent : schema.content = initial.content)
    (hstored : ∃ schema', m.Loads stored schema' ∧ schema'.content = initial.content)
    (setRaises : Bool) :
    ∃ schema', m.Loads (m.onStop processor stored setRaises) schema' ∧
      schema'.content = initial.content := by
  rw [onStop, hschema]
  cases setRaises with
  | true => exact hstored
  | false =>
    refine ⟨schema, ?_, hcontent⟩
    exact congrArg (some <$> ·) (Schema.fromDict_toDict m.digest _ schema)

omit [DecidableEq H] in
theorem onStop_none (hnone : processor.currentSchema = none) (stored : Option (StoredValue H))
    (setRaises : Bool) : m.onStop processor stored setRaises = stored := by
  rw [onStop, hnone]

/-- One more run keeps what is frozen. -/
theorem frozen_step (hdigest : Function.Injective m.digest) {stored : Option (StoredValue H)}
    {w w' : World H} {run : SchemaRun} (hcontract : w.processor.contract = .freeze)
    (h : m.Frozen stored w) (hstep : m.Step w run w') (hmeets : m.Meets w run) :
    m.Frozen stored w' := by
  subst hstep
  obtain ⟨hloaded, hmismatched⟩ := h
  obtain ⟨hmeets, hmeets'⟩ := hmeets
  constructor
  · intro schema hschema
    obtain ⟨⟨schema', hloads, hcontent⟩, hforwarded⟩ := hloaded schema hschema
    have hrecords := hmeets schema' hloads
    have hall : (∃ schema'', m.Loads (m.onStop
          (m.processAll (m.onStart w.processor w.stored run.getRaises) run.records).1 w.stored
            run.setRaises) schema'' ∧ schema''.content = schema.content) ∧
        ∀ forwarded ∈
          (m.processAll (m.onStart w.processor w.stored run.getRaises) run.records).2,
          ∃ record, forwarded = some record ∧ Conforms schema (extractRecordFields record) := by
      cases hget : run.getRaises with
      | true =>
        have hempty : ∀ record, some record ∈ run.records → Empty record := by
          intro record hmem
          obtain ⟨record', hsame, hrecord⟩ := hrecords _ hmem
          obtain rfl := Option.some.inj hsame
          rwa [if_pos hget] at hrecord
        have hstart : (m.onStart w.processor w.stored true).currentSchema = none :=
          onStart_raises w.stored
        obtain ⟨hnone, hsent⟩ := processAll_empty (m := m) hstart hempty
        rw [onStop_none hnone]
        refine ⟨⟨schema', hloads, hcontent⟩, ?_⟩
        intro forwarded hmem
        obtain ⟨record, rfl, -⟩ := hrecords _ (hsent _ hmem)
        refine ⟨record, rfl, ?_⟩
        intro name value hvalue
        have hnofields := OrderedDict.entries_eq_nil_iff.mp (hempty record (hsent _ hmem)) name
        exact absurd (hnofields.symm.trans hvalue) nofun
      | false =>
        have hrecords' : ∀ input ∈ run.records, ∃ record, input = some record ∧
            (¬ Rejects .freeze schema' (extractRecordFields record) →
              ¬ Loosens schema' (extractRecordFields record)) := by
          intro input hmem
          obtain ⟨record, hsame, hrecord⟩ := hrecords input hmem
          rw [hget, if_neg (by decide)] at hrecord
          exact ⟨record, hsame, hrecord⟩
        obtain ⟨⟨last, hlast, hsame⟩, hsent⟩ := processAll_loaded hdigest
          ((onStart_contract w.stored false).trans hcontract) (onStart_loaded hloads) rfl hrecords'
        refine ⟨loads_onStop hlast (hsame.trans hcontent) ⟨schema', hloads, hcontent⟩ _, ?_⟩
        intro forwarded hmem
        obtain ⟨record, rfl, hconforms⟩ := hsent forwarded hmem
        exact ⟨record, rfl, hconforms.of_content_eq hcontent⟩
    refine ⟨hall.1, ?_⟩
    intro forwarded hmem
    obtain hmem | hmem := List.mem_append.mp hmem
    · exact hforwarded forwarded hmem
    · exact hall.2 forwarded hmem
  · intro hmismatch
    have hstored := hmismatched hmismatch
    rw [← hstored] at hmismatch
    have hsame : m.onStop
        (m.processAll (m.onStart w.processor w.stored run.getRaises) run.records).1 w.stored
          run.setRaises = w.stored := by
      obtain hset | hempty := hmeets' hmismatch
      · rw [onStop, hset]
        split <;> rfl
      · exact onStop_none (processAll_empty (onStart_mismatched hmismatch _) hempty).1 _ _
    exact hsame.trans hstored

/-- **A stored schema is frozen in the runs that meet the conditions**, for digests that tell contents
apart: whatever is stored at first, a schema that can be loaded keeps its content and what is forwarded
conforms to it, and one whose hash does not match stays. -/
theorem frozen_of_meets (hdigest : Function.Injective m.digest)
    (hcontract : processor.contract = .freeze) (stored : Option (StoredValue H))
    {runs : List SchemaRun} {w : World H}
    (h : Effect.Runs (fun w run w' => m.Step w run w' ∧ m.Meets w run)
      ⟨stored, processor, []⟩ runs w) :
    m.Frozen stored w := by
  have hboth : m.Frozen stored w ∧ w.processor.contract = .freeze := by
    refine Effect.Runs.invariant
      (I := fun _ w => m.Frozen stored w ∧ w.processor.contract = .freeze) ?_ ?_ h
    · refine ⟨⟨fun schema hschema => ⟨⟨schema, hschema, rfl⟩, ?_⟩, fun _ => rfl⟩, hcontract⟩
      exact fun _ hmem => absurd hmem List.not_mem_nil
    · rintro _ w run w' ⟨hfrozen, hcontract⟩ ⟨hstep, hmeets⟩
      refine ⟨frozen_step hdigest hcontract hfrozen hstep hmeets, ?_⟩
      rw [hstep]
      exact (processAll_contract.trans (onStart_contract w.stored run.getRaises)).trans hcontract
  exact hboth.1

/-! ### A column of numbers -/

/-- The contents of schemas are their digests. -/
def contents : SchemaMiddleware SchemaContent := ⟨id, .freeze⟩

/-- A run with one number. -/
def numberRun : SchemaRun := ⟨[some (single (.int 1))], false, false⟩

def frozenTable : SchemaProcessor := { table := "t", contract := .freeze }

/-- A run with a value that is no number, and with a number. -/
def mixedRun : SchemaRun := ⟨[some (single (.str "a")), some (single (.int 2))], false, false⟩

/-- A column of numbers is nullable, so that single values meet the condition. -/
theorem meets_singles {w : World SchemaContent} (hloads : contents.Loads w.stored (oneColumn .integer))
    {run : SchemaRun} (hget : run.getRaises = false)
    (hrecords : ∀ input ∈ run.records, ∃ value, input = some (single value)) : contents.Meets w run := by
  constructor
  · intro schema hschema input hinput
    obtain rfl : oneColumn .integer = schema :=
      Option.some.inj (Except.ok.inj (hloads.symm.trans hschema))
    obtain ⟨value, rfl⟩ := hrecords input hinput
    refine ⟨single value, rfl, ?_⟩
    rw [hget, if_neg (by decide)]
    rintro - ⟨name, found, column, hvalue, hfound, hnullable⟩
    have hcolumn : (oneColumn .integer).columns.get? "x" = some numbers := by decide
    obtain ⟨-, rfl⟩ := column_single hcolumn hvalue hfound
    cases hnullable
  · rintro ⟨table, hash, computed, hmismatch⟩
    exact absurd (hloads.symm.trans hmismatch) nofun

/-- In the second run a record is rejected, and the schema stays. -/
theorem frozen_integers : ∃ w : World SchemaContent,
    Effect.Runs contents.Step ⟨some (.dict ((oneColumn .integer).toDict id)), frozenTable, []⟩
        [numberRun, mixedRun] w ∧
      w.forwarded = [some (single (.int 1)), some (single (.int 2))] ∧
      contents.Frozen (some (.dict ((oneColumn .integer).toDict id))) w := by
  have hloads : contents.Loads (some (.dict ((oneColumn .integer).toDict id))) (oneColumn .integer) :=
    congrArg (some <$> ·) (Schema.fromDict_toDict id true (oneColumn .integer))
  have hnumbers : ∀ input ∈ numberRun.records, ∃ value, input = some (single value) := by
    simp [numberRun]
  have hmixed : ∀ input ∈ mixedRun.records, ∃ value, input = some (single value) := by
    simp [mixedRun]
  refine ⟨_, .snoc (.snoc .start rfl) rfl, rfl, frozen_of_meets Function.injective_id rfl _
    (.snoc (.snoc .start ⟨rfl, meets_singles hloads rfl hnumbers⟩)
      ⟨rfl, meets_singles ?_ rfl hmixed⟩)⟩
  -- the first run stores what it has loaded
  exact hloads

/-- A schema whose hash is not its own. -/
def tampered : Option (StoredValue SchemaContent) :=
  some (.dict { (oneColumn .string).toDict id with hash := some ⟨"", []⟩ })

/-- The load of a schema whose hash does not match raises, and the run replaces it by the schema of
its first record. -/
theorem tampered_replaced : ∃ w : World SchemaContent,
    Effect.Runs contents.Step ⟨tampered, frozenTable, []⟩ [numberRun] w ∧
      contents.Mismatched tampered ∧ ¬ contents.Frozen tampered w := by
  have hmismatch : contents.Mismatched tampered := ⟨"t", ⟨"", []⟩, (oneColumn .string).content, rfl⟩
  refine ⟨_, .snoc .start rfl, hmismatch, ?_⟩
  intro hfrozen
  have hstored := hfrozen.2 hmismatch
  have hhash := congrArg (fun data => data.hash.map SchemaContent.table)
    (StoredValue.dict.inj (Option.some.inj hstored))
  exact absurd hhash (by decide)

end SchemaMiddleware

end AgoraEtl.Schemas
