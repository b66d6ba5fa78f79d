import AgoraEtl.Data.OpenFile
import AgoraEtl.Data.OrderedDict
import AgoraEtl.Sinks.File.Buffered

/-!
# The CSV sink

Rows are written through a handle that stays open, Arrow batches through one that is opened for each of
them.  Whether there is to be a header is asked of the file system after the first has been opened, and
before the second.

`content_of_rows` says what the file holds as long as no Arrow batch is written.
-/

namespace AgoraEtl

/-- What `pyarrow` makes of the batches of a sink: the text of a batch, unless it raises
`ArrowInvalid`, which is a line of the batch's own columns for each record, and the header of these
columns before them if it is asked for. -/
structure PyArrowCsv (T B : Type) : Type where
  toPylist : B → List T
  columnNames : B → List (List Char)
  writeCsv : Bool → B → Option (List Char)
  header : List (List Char) → List Char
  line : List (List Char) → T → List Char
  writeCsv_eq : ∀ includeHeader batch text, writeCsv includeHeader batch = some text →
    text = (if includeHeader then header (columnNames batch) else []) ++
      (toPylist batch).flatMap (line (columnNames batch))

/-- A row of the mapper: a value for each column. -/
abbrev CsvRow (V : Type) : Type := OrderedDict (List Char) V

/-- The arguments of `CsvSink`; `str` is the text of a value. -/
structure CsvSink (T V B : Type) : Type where
  rowMapper : T → Option (CsvRow V)
  fieldnames : Option (List (List Char))
  append : Bool
  flushEvery : ℤ
  delimiter : Char
  str : V → List Char
  arrow : PyArrowCsv T B

/-- The file on disk, the flag, and the open file with the column names of its writer. -/
structure CsvFile : Type where
  content : Option Bytes
  headerWritten : Bool
  writer : Option (OpenFile × List (List Char))
  deriving DecidableEq

namespace CsvSink

/-- A cell is quoted if it has a special character, and a quote in it is doubled. -/
def cell (delimiter : Char) (text : List Char) : List Char :=
  if text.any fun c => c == delimiter || c == '"' || c == '\r' || c == '\n' then
    '"' :: (text.flatMap fun c => if c == '"' then ['"', '"'] else [c]) ++ ['"']
  else text

/-- The line of some cells; a single empty one is quoted. -/
def writeRow (delimiter : Char) (cells : List (List Char)) : List Char :=
  let fields := if cells = [[]] then [['"', '"']] else cells.map (cell delimiter)
  List.intercalate [delimiter] fields ++ ['\r', '\n']

variable {T V B : Type} (sink : CsvSink T V B)

/-- The columns, which are the keys of the first row if none are given. -/
def columns (keys : List (List Char)) : List (List Char) :=
  match sink.fieldnames with
  | some (name :: names) => name :: names
  | _ => keys

/-- The line of a row; other columns are ignored and missing ones are empty. -/
def line (names : List (List Char)) (row : CsvRow V) : List Char :=
  writeRow sink.delimiter (names.map fun name => ((row.get? name).map sink.str).getD [])

def header (names : List (List Char)) : List Char := writeRow sink.delimiter names

def shouldWriteHeader (file : CsvFile) : Bool :=
  !file.headerWritten && !(sink.append && file.content.isSome)

/-- `_ensure_writer`: the file is there when `_should_write_header` asks for it. -/
def ensureWriter (file : CsvFile) : List (CsvRow V) → CsvFile
  | [] => file
  | row :: _ =>
    if file.writer.isSome then file
    else
      let opened := OpenFile.create (sink.append || file.headerWritten) file.content
      let names := sink.columns row.keys
      if sink.shouldWriteHeader { file with content := some opened.1 } then
        let written := opened.2.write opened.1 (utf8 (sink.header names))
        { file with content := some written.1, writer := some (written.2, names) }
      else { file with content := some opened.1, writer := some (opened.2, names) }

/-- `_write_rows`. -/
def writeRows (file : CsvFile) (rows : List (CsvRow V)) : CsvFile :=
  let file' := sink.ensureWriter file rows
  match rows, file'.writer with
  | [], _ => file'
  | _ :: _, none => file'
  | _ :: _, some (handle, names) =>
    let written := handle.write (file'.content.getD []) (utf8 (rows.flatMap (sink.line names)))
    { file' with content := some written.1, writer := some (written.2, names) }

/-- The rows of a flush; `_header_written` is set after them. -/
def emit (file : CsvFile) (rows : List (CsvRow V)) : CsvFile :=
  { sink.writeRows file rows with headerWritten := true }

/-- `write`, `write_batch` and `flush`. -/
def buffered : BufferedSink CsvFile (CsvRow V) T where
  flushEvery := sink.flushEvery
  row := sink.rowMapper
  prepare := id
  emit := sink.emit

/-- The text of an Arrow batch, written at once. -/
def writeText (file : CsvFile) (text : List Char) : CsvFile :=
  let opened := OpenFile.create (file.headerWritten || sink.append) file.content
  { file with content := some (opened.2.write opened.1 (utf8 text)).1, headerWritten := true }

/-- `_write_arrow_batch`; whether it returns, and the file after it. -/
def writeArrowBatch (file : CsvFile) (batch : B) : Bool × CsvFile :=
  match sink.arrow.writeCsv (sink.shouldWriteHeader file) batch with
  | some text => (true, sink.writeText file text)
  | none =>
    match (sink.arrow.toPylist batch).mapM sink.rowMapper with
    | none => (false, file)
    | some rows => (true, sink.emit file rows)

/-- `close`; if the flush raises, the file stays open. -/
def close (s : Buffered CsvFile (CsvRow V) T) : Bool × Buffered CsvFile (CsvRow V) T :=
  let flushed := sink.buffered.flush s
  if flushed.1 then (true, { flushed.2 with file := { flushed.2.file with writer := none } })
  else flushed

/-- The calls of a run. -/
inductive Call (T B : Type) : Type where
  | rows (c : RowCall T)
  | arrow (batch : B)
  | close

/-- The records of a call. -/
def records : Call T B → List T
  | .rows c => c.records
  | .arrow batch => sink.arrow.toPylist batch
  | .close => []

def call (s : Buffered CsvFile (CsvRow V) T) : Call T B → Bool × Buffered CsvFile (CsvRow V) T
  | .rows c => sink.buffered.call s c
  | .arrow batch =>
    let written := sink.writeArrowBatch s.file batch
    (written.1, { s with file := written.2 })
  | .close => sink.close s

/-! ### Writing rows -/

variable {sink} {file : CsvFile} {rows : List (CsvRow V)}

theorem ensureWriter_some (h : file.writer ≠ none) : sink.ensureWriter file rows = file := by
  cases rows with
  | nil => rfl
  | cons row rows => exact if_pos (Option.isSome_iff_ne_none.mpr h)

/-- The text that a new writer starts with. -/
def firstText (sink : CsvSink T V B) (file : CsvFile) (row : CsvRow V) : List Char :=
  if sink.append || file.headerWritten then [] else sink.header (sink.columns row.keys)

/-- The content that a new writer keeps. -/
def keptContent (sink : CsvSink T V B) (file : CsvFile) : Bytes :=
  if sink.append || file.headerWritten then file.content.getD [] else []

theorem exists_ensureWriter (sink : CsvSink T V B) (rows : List (CsvRow V)) (h : file.writer = none)
    (row : CsvRow V) :
    ∃ handle : OpenFile, sink.ensureWriter file (row :: rows) =
        { file with
          content := some (sink.keptContent file ++ utf8 (sink.firstText file row)),
          writer := some (handle, sink.columns row.keys) } ∧
      handle.AtEnd (sink.keptContent file ++ utf8 (sink.firstText file row)) := by
  obtain ⟨content, headerWritten, writer⟩ := file
  obtain rfl : writer = none := h
  have hend := OpenFile.atEnd_create (sink.append || headerWritten) content
  have hkept : (OpenFile.create (sink.append || headerWritten) content).1 =
      sink.keptContent ⟨content, headerWritten, none⟩ := OpenFile.create_fst _ _
  have hflag : ∀ content', sink.shouldWriteHeader ⟨some content', headerWritten, none⟩ =
      !(sink.append || headerWritten) := by
    intro content'
    simp [shouldWriteHeader, Bool.and_comm]
  unfold ensureWriter
  dsimp only
  rw [if_neg (by decide), hflag]
  cases happend : sink.append || headerWritten with
  | true =>
    rw [happend] at hend hkept
    rw [if_neg (by decide), firstText, if_pos happend, utf8_nil, List.append_nil, ← hkept]
    exact ⟨_, rfl, hend⟩
  | false =>
    rw [happend] at hend hkept
    have happend' : ¬ (sink.append || headerWritten) = true := by simp [happend]
    rw [if_pos (by decide), firstText, if_neg happend', ← hkept, ← OpenFile.write_fst hend]
    exact ⟨_, rfl, OpenFile.atEnd_write hend _⟩

theorem exists_writeRows (sink : CsvSink T V B) {handle : OpenFile} {names : List (List Char)}
    (hne : rows ≠ [])
    (hwriter : file.writer = some (handle, names)) (hend : handle.AtEnd (file.content.getD [])) :
    ∃ handle' : OpenFile, sink.writeRows file rows =
        { file with
          content := some (file.content.getD [] ++ utf8 (rows.flatMap (sink.line names))),
          writer := some (handle', names) } ∧
      handle'.AtEnd (file.content.getD [] ++ utf8 (rows.flatMap (sink.line names))) := by
  have hensure : sink.ensureWriter file rows = file := ensureWriter_some (by simp [hwriter])
  obtain ⟨row, rest, rfl⟩ := List.exists_cons_of_ne_nil hne
  unfold writeRows
  dsimp only
  rw [hensure, hwriter, ← OpenFile.write_fst hend]
  exact ⟨_, rfl, OpenFile.atEnd_write hend _⟩

/-- The first rows are written after the text that the writer starts with. -/
theorem exists_writeRows_first (sink : CsvSink T V B) (h : file.writer = none) (row : CsvRow V)
    (rows : List (CsvRow V)) :
    ∃ handle : OpenFile, sink.writeRows file (row :: rows) =
        { file with
          content := some (sink.keptContent file ++
            utf8 (sink.firstText file row ++ (row :: rows).flatMap (sink.line (sink.columns row.keys)))),
          writer := some (handle, sink.columns row.keys) } ∧
      handle.AtEnd (sink.keptContent file ++
        utf8 (sink.firstText file row ++ (row :: rows).flatMap (sink.line (sink.columns row.keys)))) := by
  obtain ⟨handle, hensure, hend⟩ := exists_ensureWriter sink rows h row
  have hagain : sink.writeRows file (row :: rows) =
      sink.writeRows (sink.ensureWriter file (row :: rows)) (row :: rows) := by
    have hsome : (sink.ensureWriter file (row :: rows)).writer ≠ none := by simp [hensure]
    unfold writeRows
    rw [ensureWriter_some hsome]
  obtain ⟨handle', hwrite, hend'⟩ :=
    exists_writeRows sink (List.cons_ne_nil row rows)
      (by rw [hensure] : (sink.ensureWriter file (row :: rows)).writer = _)
      (by rw [hensure]; exact hend)
  refine ⟨handle', ?_, ?_⟩
  · rw [hagain, hwrite, hensure, utf8_append, ← List.append_assoc]
    rfl
  · rw [hensure] at hend'
    rw [utf8_append, ← List.append_assoc]
    exact hend'

/-! ### Rows only -/

theorem emit_prepare : sink.buffered.emit (sink.buffered.prepare file) rows =
    { sink.writeRows file rows with headerWritten := true } := rfl

/-- The file after some rows were written to it. -/
def shown (sink : CsvSink T V B) (init : Option Bytes) : List (CsvRow V) → Option Bytes
  | [] => init
  | row :: rows =>
    some (sink.keptContent ⟨init, false, none⟩ ++ utf8 (sink.firstText ⟨init, false, none⟩ row ++
      (row :: rows).flatMap (sink.line (sink.columns row.keys))))

/-- As long as no Arrow batch is written, the file has the rows that were written to it. -/
theorem content_of_rows {init : Option Bytes} {calls : List (RowCall T)}
    {w : BufferedSink.World CsvFile (CsvRow V) T}
    (h : Effect.Runs sink.buffered.Step (.start ⟨init, false, none⟩) calls w) :
    w.state.file.content = sink.shown init w.state.rows := by
  have hK := BufferedSink.file_invariant sink.buffered
    (K := fun rows file => file.content = sink.shown init rows ∧
      match rows with
      | [] => file.headerWritten = false ∧ file.writer = none
      | row :: _ => ∃ handle : OpenFile, file.writer = some (handle, sink.columns row.keys) ∧
        handle.AtEnd (file.content.getD []))
    ⟨rfl, rfl, rfl⟩ (fun _ _ hK => hK) ?_ h
  · exact hK.1
  rintro written rows file hne ⟨hcontent, hstate⟩
  cases written with
  | nil =>
    obtain ⟨row, rest, rfl⟩ := List.exists_cons_of_ne_nil hne
    obtain ⟨hflag, hwriter⟩ := hstate
    obtain ⟨handle, hwrite, hend⟩ := exists_writeRows_first sink hwriter row rest
    have hfile : file = ⟨init, false, none⟩ := by
      obtain ⟨content, headerWritten, writer⟩ := file
      obtain rfl : content = init := hcontent
      obtain rfl : headerWritten = false := hflag
      obtain rfl : writer = none := hwriter
      rfl
    subst hfile
    rw [emit_prepare, hwrite]
    exact ⟨rfl, handle, rfl, hend⟩
  | cons row rest =>
    obtain ⟨handle, hwriter, hend⟩ := hstate
    obtain ⟨handle', hwrite, hend'⟩ := exists_writeRows sink hne hwriter hend
    rw [emit_prepare, hwrite]
    refine ⟨?_, handle', rfl, hend'⟩
    rw [hcontent]
    simp [shown]

end CsvSink

end AgoraEtl
