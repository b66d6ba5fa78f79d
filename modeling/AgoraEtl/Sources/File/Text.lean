import AgoraEtl.Data.OrderedDict
import AgoraEtl.Sources.File.Paths

/-!
# CSV and JSON Lines sources

`CsvSource` and `JsonLinesSource` over the rows of a CSV reader and the lines of a file. Both number
what they read from the first row on. A CSV source leaves empty rows out before it numbers them; a
JSON Lines source numbers blank lines and passes them over.
-/

namespace AgoraEtl.File

open Resumption

variable {ε T V : Type}

/-! ### Rows of a CSV file -/

/-- A value of a row: a string, `None` for a missing one, or the values beyond the header. -/
inductive Cell where
  | text (value : String)
  | missing
  | overflow (values : List String)
  deriving DecidableEq

/-- A row of a CSV file: `None` is the key of the values beyond the header. -/
abbrev CsvRow : Type := OrderedDict (Option String) Cell

def valuesAllEmpty (values : List String) : Bool := values.all fun value => value == ""

/-- `dict(zip(header, values, strict=False))`, which is what `_make_fixed_row_builder` returns for
every width. -/
def zipRow (header values : List String) : CsvRow :=
  OrderedDict.ofEntries ((header.zip values).map fun entry => (some entry.1, Cell.text entry.2))

def buildVariableWidthRow (header values : List String) (fieldCount : ℕ) : CsvRow :=
  if values.length < fieldCount then
    (zipRow header values).update
      ((header.drop values.length).map fun key => (some key, Cell.missing))
  else (zipRow header values).set none (.overflow (values.drop fieldCount))

/-! ### CSV sources -/

/-- `CsvSource`; `rowMapper` raises, returns a record, or returns `None`. -/
structure CsvSource (ε T : Type) where
  rowMapper : CsvRow → Except ε (Option T)
  hasHeader : Bool := true
  fieldnames : List String := []
  skipBlankLines : Bool := true
  batchSize : ℕ := 1000
  emitBatchSize : ℕ := 5000
  onRecordError : SourceRecordFailurePolicy := .failClosed
  sourceIdentityMismatchPolicy : SourceIdentityMismatchPolicy := .failClosed
  resumeRowNumber : ℕ := 0
  progress : Progress := {}

namespace CsvSource

def dataRow (source : CsvSource ε T) (header values : List String) : Option CsvRow :=
  if values.isEmpty then none
  else if source.skipBlankLines && valuesAllEmpty values then none
  else if values.length = header.length then some (zipRow header values)
  else some (buildVariableWidthRow header values header.length)

/-- `_iter_dict_rows`, over the rows of `csv.reader`. -/
def iterDictRows (source : CsvSource ε T) (reader : List (List String)) : List CsvRow :=
  if source.hasHeader then
    match reader with
    | [] => []
    | header :: rows => rows.filterMap (source.dataRow header)
  else reader.filterMap (source.dataRow source.fieldnames)

def settings (source : CsvSource ε T) : RowSettings ε T CsvRow CsvRow CsvRow where
  sourceName := "csv"
  checkpointKey := "row_number"
  mismatchPolicy := source.sourceIdentityMismatchPolicy
  read := id
  handle row :=
    match source.rowMapper row with
    | .ok (some record) => .record record
    | .ok none => .dropped
    | .error exc => .failed exc row
  onRecordError := source.onRecordError

def prepareResume (source : CsvSource ε T) (identity : String)
    (checkpoint : Option (Checkpoint CheckpointValue)) : Except String (CsvSource ε T) :=
  (source.settings.resumeNumber identity checkpoint).map fun number =>
    { source with resumeRowNumber := number }

def currentCheckpoint (source : CsvSource ε T) : CheckpointValue :=
  source.settings.checkpointOf source.progress.lastNumber

def streamSyncBatches (source : CsvSource ε T) (reader : List (List String)) :
    SourceRun T ε CsvRow :=
  source.settings.syncLoop source.resumeRowNumber (source.iterDictRows reader) 0
    source.progress.restarted

def streamBatches (source : CsvSource ε T) (reader : List (List String)) :
    SourceRun (List T) ε CsvRow :=
  source.settings.batchLoop source.resumeRowNumber (max source.emitBatchSize 1)
    (source.iterDictRows reader) 0 [] source.progress.restarted

def readRecords (source : CsvSource ε T) (reader : List (List String)) : SourceRun T ε CsvRow :=
  source.settings.readLoop source.resumeRowNumber (max source.batchSize 1)
    (source.iterDictRows reader) 0 source.progress.restarted

/-- The source after `prepare_resume` with a value of its own. -/
def resumedAt (source : CsvSource ε T) (value : CheckpointValue) : CsvSource ε T :=
  { source with resumeRowNumber := source.settings.numberOf value }

/-- The paths of a source on a file. -/
def paths (source : CsvSource ε T) (reader : List (List String)) : Paths ε T CsvRow where
  streamSyncBatches value := (source.resumedAt value).streamSyncBatches reader
  streamBatches value := (source.resumedAt value).streamBatches reader
  readRecords value := (source.resumedAt value).readRecords reader

end CsvSource

/-! ### JSON Lines sources -/

/-- `str.isspace` of one character. -/
def isSpace (c : Char) : Bool :=
  (9 ≤ c.toNat && c.toNat ≤ 13) || (28 ≤ c.toNat && c.toNat ≤ 32) || c.toNat == 133 ||
    c.toNat == 160 || c.toNat == 5760 || (8192 ≤ c.toNat && c.toNat ≤ 8202) || c.toNat == 8232 ||
    c.toNat == 8233 || c.toNat == 8239 || c.toNat == 8287 || c.toNat == 12288

/-- `str.strip`. -/
def strip (line : String) : String :=
  String.ofList (((line.toList.dropWhile isSpace).reverse.dropWhile isSpace).reverse)

/-- `JsonLinesSource`; `loads` is the parser of the JSON library. -/
structure JsonLinesSource (ε T V : Type) where
  loads : String → Except ε V
  rowMapper : V → Except ε (Option T)
  batchSize : ℕ := 1000
  emitBatchSize : ℕ := 5000
  onRecordError : SourceRecordFailurePolicy := .failClosed
  sourceIdentityMismatchPolicy : SourceIdentityMismatchPolicy := .failClosed
  resumeLineNumber : ℕ := 0
  progress : Progress := {}

namespace JsonLinesSource

/-- What is read of a line: the stripped line, and what the parser makes of it unless it is blank. -/
def readLine (source : JsonLinesSource ε T V) (line : String) : String × Option (Except ε V) :=
  if strip line = "" then (strip line, none) else (strip line, some (source.loads (strip line)))

def settings (source : JsonLinesSource ε T V) :
    RowSettings ε T String (String × Option (Except ε V)) String where
  sourceName := "jsonl"
  checkpointKey := "line_number"
  mismatchPolicy := source.sourceIdentityMismatchPolicy
  read := source.readLine
  handle item :=
    match item.2 with
    | none => .blank
    | some (.error exc) => .failed exc item.1
    | some (.ok parsed) =>
      match source.rowMapper parsed with
      | .ok (some record) => .record record
      | .ok none => .dropped
      | .error exc => .failed exc item.1
  onRecordError := source.onRecordError

def prepareResume (source : JsonLinesSource ε T V) (identity : String)
    (checkpoint : Option (Checkpoint CheckpointValue)) : Except String (JsonLinesSource ε T V) :=
  (source.settings.resumeNumber identity checkpoint).map fun number =>
    { source with resumeLineNumber := number }

def currentCheckpoint (source : JsonLinesSource ε T V) : CheckpointValue :=
  source.settings.checkpointOf source.progress.lastNumber

def streamSyncBatches (source : JsonLinesSource ε T V) (lines : List String) :
    SourceRun T ε String :=
  source.settings.syncLoop source.resumeLineNumber lines 0 source.progress.restarted

def streamBatches (source : JsonLinesSource ε T V) (lines : List String) :
    SourceRun (List T) ε String :=
  source.settings.batchLoop source.resumeLineNumber (max source.emitBatchSize 1) lines 0 []
    source.progress.restarted

def readRecords (source : JsonLinesSource ε T V) (lines : List String) : SourceRun T ε String :=
  source.settings.readLoop source.resumeLineNumber (max source.batchSize 1) lines 0
    source.progress.restarted

/-- The source after `prepare_resume` with a value of its own. -/
def resumedAt (source : JsonLinesSource ε T V) (value : CheckpointValue) :
    JsonLinesSource ε T V :=
  { source with resumeLineNumber := source.settings.numberOf value }

/-- The paths of a source on a file. -/
def paths (source : JsonLinesSource ε T V) (lines : List String) : Paths ε T String where
  streamSyncBatches value := (source.resumedAt value).streamSyncBatches lines
  streamBatches value := (source.resumedAt value).streamBatches lines
  readRecords value := (source.resumedAt value).readRecords lines

end JsonLinesSource

/-! ### Resuming and agreement -/

/-- `prepare_resume` accepts the checkpoints of the file it was called for. -/
theorem CsvSource.prepareResume_eq (source : CsvSource ε T) {identity : String}
    {checkpoint : Checkpoint CheckpointValue} (hsame : checkpoint.sourceIdentity = some identity) :
    source.prepareResume identity (some checkpoint) = .ok (source.resumedAt checkpoint.value) := by
  rw [prepareResume, source.settings.resumeNumber_some hsame]
  rfl

theorem JsonLinesSource.prepareResume_eq (source : JsonLinesSource ε T V) {identity : String}
    {checkpoint : Checkpoint CheckpointValue} (hsame : checkpoint.sourceIdentity = some identity) :
    source.prepareResume identity (some checkpoint) = .ok (source.resumedAt checkpoint.value) := by
  rw [prepareResume, source.settings.resumeNumber_some hsame]
  rfl

theorem CsvSource.paths_agree (source : CsvSource ε T) (reader : List (List String)) :
    (source.paths reader).Agree source.settings.toResumeSettings :=
  source.settings.paths_agree (max source.emitBatchSize 1) (max source.batchSize 1)
    (source.iterDictRows reader) source.progress.restarted

theorem JsonLinesSource.paths_agree (source : JsonLinesSource ε T V) (lines : List String) :
    (source.paths lines).Agree source.settings.toResumeSettings :=
  source.settings.paths_agree (max source.emitBatchSize 1) (max source.batchSize 1) lines
    source.progress.restarted

/-- A run that raises leaves the source at the checkpoint of the last batch it has yielded. -/
def NeverBeyond (settings : ResumeSettings) (run : SourceRun (List T) ε V) : Prop :=
  run.ended ≠ .finished →
    run.progress.lastNumber ≤ settings.numberOf (cursorAfter none run.yields)

/-- A source whose mapper takes the identifiers that are no `x`, in batches of one record. -/
def singleCsv : CsvSource String Cell where
  rowMapper row :=
    match row.get? (some "id") with
    | some (.text "x") => .error "ValueError"
    | value => .ok value
  emitBatchSize := 1

end AgoraEtl.File
