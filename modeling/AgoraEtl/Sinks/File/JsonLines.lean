import AgoraEtl.Sinks.File.Csv

/-!
# The JSON lines sink

The serialized records of a flush are joined and written at once.  The file is opened before they are
serialized, and a flush that raises puts its records back, so that they are tried again with all that
come after them.

`failing_records_iff` says in which runs of this sink and of the CSV sink a failing record does no
harm.
-/

namespace AgoraEtl

/-- The arguments of `JsonLinesSink`; `dumps` is the JSON of a record, if neither the serializer nor
the encoder raises. -/
structure JsonLinesSink (T : Type) : Type where
  dumps : T → Option (List Char)
  append : Bool
  flushEvery : ℤ

/-- The file on disk, the open file, and whether anything was written. -/
structure JsonLinesFile : Type where
  content : Option Bytes
  file : Option OpenFile
  hasWritten : Bool
  deriving DecidableEq

namespace JsonLinesSink

variable {T : Type} (sink : JsonLinesSink T)

/-- `_open_file`. -/
def openFile (f : JsonLinesFile) : JsonLinesFile :=
  let opened := OpenFile.create (sink.append || f.hasWritten) f.content
  { f with content := some opened.1, file := some opened.2 }

/-- A flush opens the file if it is not open. -/
def ensureOpen (f : JsonLinesFile) : JsonLinesFile := if f.file.isSome then f else sink.openFile f

/-- `_write_rows`, after the rows were serialized. -/
def writeRows (f : JsonLinesFile) (rows : List (List Char)) : JsonLinesFile :=
  match f.file with
  | none => f
  | some file =>
    let chunk := List.intercalate ['\n'] rows ++ ['\n']
    let written := file.write (f.content.getD []) (utf8 chunk)
    { content := some written.1, file := some written.2, hasWritten := true }

/-- `write`, `write_batch` and `flush`. -/
def buffered : BufferedSink JsonLinesFile (List Char) T where
  flushEvery := sink.flushEvery
  row := sink.dumps
  prepare := sink.ensureOpen
  emit := writeRows

/-- The state before the first write, after `open` if it was called. -/
def initial (init : Option Bytes) (opened : Bool) : JsonLinesFile :=
  if opened then sink.openFile ⟨init, none, false⟩ else ⟨init, none, false⟩

/-! ### The file -/

/-- What the file has of what was there before. -/
def keptContent (init : Option Bytes) : Bytes := if sink.append then init.getD [] else []

/-- Some rows have been written to the file; before the first it may be as it was. -/
def Shows (init : Option Bytes) (rows : List (List Char)) (content : Option Bytes) : Prop :=
  (rows = [] ∧ content = init) ∨
    content = some (sink.keptContent init ++ utf8 (rows.flatMap (· ++ ['\n'])))

theorem intercalate_newline {rows : List (List Char)} (h : rows ≠ []) :
    List.intercalate ['\n'] rows ++ ['\n'] = rows.flatMap (· ++ ['\n']) := by
  induction rows with
  | nil => exact absurd rfl h
  | cons row rows ih =>
    cases rows with
    | nil => simp
    | cons next rest =>
      rw [List.flatMap_cons, ← ih (List.cons_ne_nil _ _), List.intercalate_cons_cons]
      simp

variable {sink}

theorem exists_openFile (sink : JsonLinesSink T) {f : JsonLinesFile} (h : f.hasWritten = false) :
    ∃ file : OpenFile, sink.openFile f =
        { f with content := some (sink.keptContent f.content), file := some file } ∧
      file.AtEnd (sink.keptContent f.content) := by
  have hend := OpenFile.atEnd_create sink.append f.content
  rw [OpenFile.create_fst] at hend
  refine ⟨_, ?_, hend⟩
  rw [openFile, h, Bool.or_false, OpenFile.create_fst]
  rfl

theorem ensureOpen_of_none {f : JsonLinesFile} (h : f.file = none) :
    sink.ensureOpen f = sink.openFile f := if_neg (by simp [h])

theorem ensureOpen_of_some {f : JsonLinesFile} {file : OpenFile} (h : f.file = some file) :
    sink.ensureOpen f = f := if_pos (by simp [h])

/-- The file before it is opened, or the open file with some rows. -/
def Holds (sink : JsonLinesSink T) (init : Option Bytes) (rows : List (List Char))
    (f : JsonLinesFile) : Prop :=
  (rows = [] ∧ f = ⟨init, none, false⟩) ∨ ∃ file : OpenFile, f.file = some file ∧
    f.content = some (sink.keptContent init ++ utf8 (rows.flatMap (· ++ ['\n']))) ∧
    file.AtEnd (f.content.getD [])

theorem holds_openFile (init : Option Bytes) :
    sink.Holds init [] (sink.openFile ⟨init, none, false⟩) := by
  obtain ⟨file, hopen, hend⟩ := exists_openFile sink (f := ⟨init, none, false⟩) rfl
  right
  rw [hopen]
  exact ⟨file, rfl, by simp, hend⟩

theorem holds_ensureOpen {init : Option Bytes} {rows : List (List Char)} {f : JsonLinesFile}
    (h : sink.Holds init rows f) : sink.Holds init rows (sink.ensureOpen f) := by
  obtain ⟨rfl, rfl⟩ | ⟨file, hfile, hrest⟩ := h
  · rw [ensureOpen_of_none rfl]
    exact holds_openFile init
  · rw [ensureOpen_of_some hfile]
    exact Or.inr ⟨file, hfile, hrest⟩

theorem holds_writeRows {init : Option Bytes} {rows rows' : List (List Char)} {f : JsonLinesFile}
    (hne : rows' ≠ []) (h : sink.Holds init rows f) (hopen : f.file ≠ none) :
    sink.Holds init (rows ++ rows') (writeRows f rows') := by
  obtain ⟨-, rfl⟩ | ⟨file, hfile, hcontent, hend⟩ := h
  · exact absurd rfl hopen
  · have hwrite : writeRows f rows' =
        ⟨some (file.write (f.content.getD []) (utf8 (rows'.flatMap (· ++ ['\n'])))).1,
          some (file.write (f.content.getD []) (utf8 (rows'.flatMap (· ++ ['\n'])))).2, true⟩ := by
      rw [writeRows, hfile, ← intercalate_newline hne]
    right
    rw [hwrite]
    refine ⟨_, rfl, ?_, OpenFile.atEnd_write hend _⟩
    rw [OpenFile.write_fst hend, hcontent]
    simp

/-- As long as no Arrow batch is written, the file has the rows that were written to it. -/
theorem content_of_rows {init : Option Bytes} {opened : Bool} {calls : List (RowCall T)}
    {w : BufferedSink.World JsonLinesFile (List Char) T}
    (h : Effect.Runs sink.buffered.Step (.start (sink.initial init opened)) calls w) :
    sink.Shows init w.state.rows w.state.file.content := by
  have hstart : sink.Holds init [] (sink.initial init opened) := by
    cases opened with
    | false => exact Or.inl ⟨rfl, rfl⟩
    | true => exact holds_openFile init
  have hopen : ∀ f : JsonLinesFile, (sink.ensureOpen f).file ≠ none := by
    intro f
    cases hfile : f.file with
    | none =>
      rw [ensureOpen_of_none hfile]
      simp [openFile]
    | some file =>
      rw [ensureOpen_of_some hfile, hfile]
      simp
  have hholds := BufferedSink.file_invariant sink.buffered (K := sink.Holds init) hstart
    (fun rows f hrows => holds_ensureOpen hrows)
    (fun rows rows' f hne hrows => holds_writeRows hne (holds_ensureOpen hrows) (hopen f)) h
  obtain ⟨hrows, hfile⟩ | ⟨-, -, hcontent, -⟩ := hholds
  · exact Or.inl ⟨hrows, by rw [hfile]⟩
  · exact Or.inr hcontent

/-! ### Failing records -/

/-- **The two sinks isolate failing records in the runs in which no failing record is buffered together
with a good one, and none waits for others.** -/
theorem failing_records_iff {V B : Type} (csv : CsvSink T V B) (jsonl : JsonLinesSink T)
    (init : Option Bytes) (opened : Bool) (calls : List (RowCall T))
    (w : BufferedSink.World CsvFile (CsvRow V) T)
    (w' : BufferedSink.World JsonLinesFile (List Char) T) :
    ((Effect.Runs (fun w c w' => csv.buffered.Step w c w' ∧ csv.buffered.Safe w c w')
          (.start ⟨init, false, none⟩) calls w ↔
        Effect.Runs (fun w c w' => csv.buffered.Step w c w' ∧ csv.buffered.Meets w c)
          (.start ⟨init, false, none⟩) calls w) ∧
      (Effect.Runs csv.buffered.Step (.start ⟨init, false, none⟩) calls w →
        w.state.file.content = csv.shown init w.state.rows)) ∧
    (Effect.Runs (fun w c w' => jsonl.buffered.Step w c w' ∧ jsonl.buffered.Safe w c w')
          (.start (jsonl.initial init opened)) calls w' ↔
        Effect.Runs (fun w c w' => jsonl.buffered.Step w c w' ∧ jsonl.buffered.Meets w c)
          (.start (jsonl.initial init opened)) calls w') ∧
      (Effect.Runs jsonl.buffered.Step (.start (jsonl.initial init opened)) calls w' →
        jsonl.Shows init w'.state.rows w'.state.file.content) :=
  ⟨⟨BufferedSink.isolates_iff _ calls w, CsvSink.content_of_rows⟩,
    BufferedSink.isolates_iff _ calls w', content_of_rows⟩

/-- A sink of two records a flush, for records of which one cannot be serialized. -/
def ofBool : JsonLinesSink Bool where
  dumps record := if record then some ['1'] else none
  append := false
  flushEvery := 2

/-- A good record is accepted and a failing one is not; after that the good one is never written, and
the write of the next good one raises as well. -/
theorem good_record_lost : ∃ w : BufferedSink.World JsonLinesFile (List Char) Bool,
    Effect.Runs ofBool.buffered.Step (.start (ofBool.initial none false))
        [.write true, .write false] w ∧
      w.accepted = [true] ∧ ¬ ofBool.buffered.Delivers w ∧
      (ofBool.buffered.call w.state (.write true)).1 = false := by
  refine ⟨_, .snoc (.snoc .start rfl) rfl, by decide, ?_, by decide⟩
  unfold BufferedSink.Delivers
  decide

end JsonLinesSink

end AgoraEtl
