import AgoraEtl.Sinks.File.Csv

/-!
# The output of the CSV sink

The file of a closed sink should have what was kept of the file before, a header if that was nothing or
missing, and a line for every record in the order of the calls.

`output_of_meets` says in which runs of rows, Arrow batches, flushes and closes it has.
-/

namespace AgoraEtl.CsvSink

variable {T V B : Type} (sink : CsvSink T V B)

/-! ### What a run is held to -/

/-- A sink with the records of the calls that returned. -/
structure World (T V : Type) : Type where
  state : Buffered CsvFile (CsvRow V) T
  accepted : List T

def World.start (init : Option Bytes) : World T V := ⟨⟨[], ⟨init, false, none⟩, []⟩, []⟩

def Step (w : World T V) (c : Call T B) (w' : World T V) : Prop :=
  w' = ⟨(sink.call w.state c).2,
    if (sink.call w.state c).1 then w.accepted ++ sink.records c else w.accepted⟩

/-- All records are mapped to rows with the same columns. -/
def SameColumns (keys : List (List Char)) : Prop :=
  ∀ r, ∃ row, sink.rowMapper r = some row ∧ row.keys = keys

/-- The line of a record in the columns of the sink, as a row or in an Arrow batch. -/
def LineOf (keys : List (List Char)) (r : T) (text : List Char) : Prop :=
  (∃ row, sink.rowMapper r = some row ∧ text = sink.line (sink.columns keys) row) ∨
    text = sink.arrow.line (sink.columns keys) r

/-- There is a header of the columns of the sink, written by the writer or with an Arrow batch, unless
lines are appended to a file. -/
def HeaderOf (keys : List (List Char)) (init : Option Bytes) (text : List Char) : Prop :=
  if sink.append = true ∧ init.isSome then text = []
  else text = sink.header (sink.columns keys) ∨ text = sink.arrow.header (sink.columns keys)

/-- What is kept of the file before. -/
def kept (init : Option Bytes) : Bytes := if sink.append then init.getD [] else []

/-- The file has the header and the lines of all records; without any, a missing file may be missing. -/
def Correct (keys : List (List Char)) (init : Option Bytes) (w : World T V) : Prop :=
  (w.accepted = [] ∧ init = none ∧ w.state.file.content = none) ∨
    ∃ header lines, sink.HeaderOf keys init header ∧
      List.Forall₂ (sink.LineOf keys) w.accepted lines ∧
      w.state.file.content = some (sink.kept init ++ utf8 (header ++ lines.flatten))

/-- Rows can be written: the writer is at the end of the file, or the new one need not add a header to
a file that it is told to append to and that is missing. -/
def Ready (file : CsvFile) : Prop :=
  match file.writer with
  | some (handle, _) => handle.AtEnd (file.content.getD [])
  | none => ¬ (sink.append = true ∧ file.content = none ∧ file.headerWritten = false)

/-- The call writes the buffer and its records as rows. -/
def WritesRows (buffer : List T) : RowCall T → Prop
  | .flush => buffer ≠ []
  | c => buffer ++ c.records ≠ [] ∧ sink.flushEvery ≤ (buffer ++ c.records).length

/-- An Arrow batch that is written as it is has the columns of the sink, unless nothing of it shows. -/
def InColumns (keys : List (List Char)) (file : CsvFile) (batch : B) : Prop :=
  sink.arrow.toPylist batch ≠ [] ∨ sink.shouldWriteHeader file = true →
    sink.arrow.columnNames batch = sink.columns keys

/-- Rows are only written when they can be; Arrow batches only when no record is buffered, unless they
are empty, and in the columns of the sink; and an empty one is not left to the rows while the header is
missing. -/
def Meets (keys : List (List Char)) (w : World T V) : Call T B → Prop
  | .rows c => sink.WritesRows w.state.buffer c → sink.Ready w.state.file
  | .arrow batch =>
    (w.state.buffer = [] ∨ sink.arrow.toPylist batch = []) ∧
      match sink.arrow.writeCsv (sink.shouldWriteHeader w.state.file) batch with
      | some _ => sink.InColumns keys w.state.file batch
      | none =>
        if sink.arrow.toPylist batch = [] then sink.shouldWriteHeader w.state.file = false
        else sink.Ready w.state.file
  | .close => w.state.buffer ≠ [] → sink.Ready w.state.file

/-- The call has a record, or is an Arrow batch. -/
def Call.Writes : Call T B → Prop
  | .rows c => c.records ≠ []
  | .arrow _ => True
  | .close => False

/-! ### The file -/

/-- The file before the header, or with the header and some lines. -/
def FileOk (keys : List (List Char)) (init : Option Bytes) (lines : List (List Char))
    (file : CsvFile) : Prop :=
  (∀ handle names, file.writer = some (handle, names) → names = sink.columns keys) ∧
    ((file = ⟨init, false, none⟩ ∧ lines = []) ∨
      (file.headerWritten = true ∧ ∃ header, sink.HeaderOf keys init header ∧
        file.content = some (sink.kept init ++ utf8 (header ++ lines.flatten))))

variable {sink} {keys : List (List Char)} {init : Option Bytes} {lines : List (List Char)}
  {file : CsvFile}

/-- Rows go to the end of the file. -/
theorem fileOk_emit {rows : List (CsvRow V)} (h : sink.FileOk keys init lines file)
    (hready : sink.Ready file) (hne : rows ≠ []) (hkeys : ∀ row ∈ rows, row.keys = keys) :
    (sink.emit file rows).headerWritten = true ∧
      sink.FileOk keys init (lines ++ rows.map (sink.line (sink.columns keys)))
        (sink.emit file rows) := by
  refine ⟨rfl, ?_⟩
  obtain ⟨hnames, hfile⟩ := h
  have hlines : (lines ++ rows.map (sink.line (sink.columns keys))).flatten =
      lines.flatten ++ rows.flatMap (sink.line (sink.columns keys)) := by
    rw [List.flatten_append, List.flatMap_def]
  cases hwriter : file.writer with
  | some writer =>
    obtain ⟨handle, names⟩ := writer
    obtain rfl := hnames handle names hwriter
    have hend : handle.AtEnd (file.content.getD []) := by
      rw [Ready, hwriter] at hready
      exact hready
    obtain ⟨handle', hwrite, -⟩ := exists_writeRows sink hne hwriter hend
    obtain ⟨rfl, -⟩ | ⟨-, header, hheader, hcontent⟩ := hfile
    · exact absurd hwriter (by simp)
    · rw [emit, hwrite]
      refine ⟨?_, Or.inr ⟨rfl, header, hheader, ?_⟩⟩
      · rintro _ _ hsome
        obtain ⟨-, rfl⟩ := Prod.mk.inj (Option.some.inj hsome)
        rfl
      · rw [hlines, hcontent]
        simp
  | none =>
    obtain ⟨row, rest, rfl⟩ := List.exists_cons_of_ne_nil hne
    obtain ⟨handle, hwrite, -⟩ := exists_writeRows_first sink hwriter row rest
    have hrow : row.keys = keys := hkeys row List.mem_cons_self
    rw [hrow] at hwrite
    rw [emit, hwrite]
    refine ⟨?_, Or.inr ⟨rfl, ?_⟩⟩
    · rintro _ _ hsome
      obtain ⟨-, rfl⟩ := Prod.mk.inj (Option.some.inj hsome)
      rfl
    obtain ⟨rfl, rfl⟩ | ⟨hflag, header, hheader, hcontent⟩ := hfile
    · refine ⟨sink.firstText ⟨init, false, none⟩ row, ?_, ?_⟩
      · rw [HeaderOf, firstText, hrow]
        cases happend : sink.append with
        | false => simp
        | true =>
          have hsome : init.isSome := by
            rw [Ready] at hready
            cases init with
            | none => exact absurd ⟨happend, rfl, rfl⟩ hready
            | some _ => rfl
          simp [hsome]
      · rw [hlines, keptContent, kept, Bool.or_false]
        simp
    · refine ⟨header, hheader, ?_⟩
      rw [hlines, keptContent, firstText, hflag, hcontent]
      simp

/-- No rows leave the file as it is, and the header for written. -/
theorem fileOk_emit_nil (h : sink.FileOk keys init lines file)
    (hheader : sink.shouldWriteHeader file = false) :
    sink.FileOk keys init lines (sink.emit file []) := by
  obtain ⟨hnames, ⟨rfl, rfl⟩ | ⟨hflag, hwritten⟩⟩ := h
  · have hboth : sink.append = true ∧ init.isSome := by
      rw [shouldWriteHeader] at hheader
      simpa using hheader
    obtain ⟨content, rfl⟩ := Option.isSome_iff_exists.mp hboth.2
    refine ⟨hnames, Or.inr ⟨rfl, [], ?_, ?_⟩⟩
    · rw [HeaderOf, if_pos hboth]
    · rw [kept, if_pos hboth.1]
      simp [emit, writeRows, ensureWriter]
  · exact ⟨hnames, Or.inr ⟨rfl, hwritten⟩⟩

/-- The text of an Arrow batch goes to the end of the file, with the header if it is missing. -/
theorem fileOk_writeText {text : List Char} {added : List (List Char)}
    (h : sink.FileOk keys init lines file)
    (htext : text = (if sink.shouldWriteHeader file then sink.arrow.header (sink.columns keys)
      else []) ++ added.flatten) :
    sink.FileOk keys init (lines ++ added) (sink.writeText file text) := by
  obtain ⟨hnames, hfile⟩ := h
  have hend := OpenFile.atEnd_create (file.headerWritten || sink.append) file.content
  have hwrite : (sink.writeText file text).content =
      some ((if file.headerWritten || sink.append then file.content.getD [] else []) ++
        utf8 text) := by
    rw [writeText]
    dsimp only
    rw [OpenFile.write_fst hend, OpenFile.create_fst]
  refine ⟨hnames, Or.inr ⟨rfl, ?_⟩⟩
  rw [hwrite, htext]
  obtain ⟨rfl, rfl⟩ | ⟨hflag, header, hheader, hcontent⟩ := hfile
  · refine ⟨if sink.shouldWriteHeader ⟨init, false, none⟩ then
      sink.arrow.header (sink.columns keys) else [], ?_, ?_⟩
    · rw [HeaderOf, shouldWriteHeader]
      cases sink.append <;> cases init <;> simp
    · rw [kept, Bool.false_or]
      simp
  · refine ⟨header, hheader, ?_⟩
    rw [shouldWriteHeader, hflag, hcontent]
    simp

theorem fileOk_close (h : sink.FileOk keys init lines file) :
    sink.FileOk keys init lines { file with writer := none } := by
  obtain ⟨-, ⟨rfl, hlines⟩ | hwritten⟩ := h
  · exact ⟨fun _ _ hsome => absurd hsome (by simp), Or.inl ⟨rfl, hlines⟩⟩
  · exact ⟨fun _ _ hsome => absurd hsome (by simp), Or.inr hwritten⟩

/-! ### Steps -/

/-- The records are in the file, but for those in the buffer. -/
def Placed (sink : CsvSink T V B) (keys : List (List Char)) (init : Option Bytes)
    (s : Buffered CsvFile (CsvRow V) T) (accepted : List T) : Prop :=
  ∃ done lines, accepted = done ++ s.buffer ∧ List.Forall₂ (sink.LineOf keys) done lines ∧
    sink.FileOk keys init lines s.file

/-- A record has been given to the sink, or an Arrow batch. -/
def Touched (s : Buffered CsvFile (CsvRow V) T) : Prop :=
  s.file.headerWritten = true ∨ s.buffer ≠ []

variable {s : Buffered CsvFile (CsvRow V) T} {accepted records : List T}

theorem row_ne_none (hkeys : sink.SameColumns keys) (r : T) : sink.buffered.row r ≠ none := by
  obtain ⟨row, hrow, -⟩ := hkeys r
  have hrow' : sink.buffered.row r = some row := hrow
  simp [hrow']

/-- The rows of some records have the columns, and their lines. -/
theorem lines_of_rows (hkeys : sink.SameColumns keys) {rows : List (CsvRow V)}
    (h : rows.map some = records.map sink.rowMapper) :
    (∀ row ∈ rows, row.keys = keys) ∧
      List.Forall₂ (sink.LineOf keys) records (rows.map (sink.line (sink.columns keys))) := by
  induction records generalizing rows with
  | nil =>
    obtain rfl := List.map_eq_nil_iff.mp h
    exact ⟨fun _ hrow => absurd hrow (by simp), .nil⟩
  | cons r records ih =>
    obtain ⟨row, rest, rfl, hrow, hrest⟩ := List.map_eq_cons_iff.mp h
    obtain ⟨hall, hlines⟩ := ih hrest
    obtain ⟨row', hmap, hrowkeys⟩ := hkeys r
    obtain rfl : row = row' := Option.some.inj (hrow.trans hmap)
    refine ⟨?_, .cons (Or.inl ⟨row, hmap, rfl⟩) hlines⟩
    intro row'' hmem
    obtain rfl | hmem := List.mem_cons.mp hmem
    · exact hrowkeys
    · exact hall row'' hmem

theorem placed_flush (hkeys : sink.SameColumns keys) (h : sink.Placed keys init s accepted)
    (hready : s.buffer ≠ [] → sink.Ready s.file) :
    ∃ s', sink.buffered.flush s = (true, s') ∧ s'.buffer = [] ∧
      sink.Placed keys init s' accepted ∧ (Touched s → Touched s') := by
  by_cases hempty : s.buffer = []
  · exact ⟨s, BufferedSink.flush_nil hempty, hempty, h, id⟩
  · obtain ⟨done, lines, rfl, hlines, hfile⟩ := h
    obtain ⟨rows, hne, hmap, hflush⟩ :=
      BufferedSink.exists_flush_eq hempty fun r _ => row_ne_none hkeys r
    obtain ⟨hrows, hadded⟩ := lines_of_rows hkeys hmap
    obtain ⟨hflag, hfile'⟩ := fileOk_emit hfile (hready hempty) hne hrows
    exact ⟨_, hflush, rfl, ⟨done ++ s.buffer, _, (List.append_nil _).symm,
      List.rel_append hlines hadded, hfile'⟩, fun _ => Or.inl hflag⟩

theorem placed_extend (hkeys : sink.SameColumns keys) (h : sink.Placed keys init s accepted)
    (hready : s.buffer ++ records ≠ [] ∧ sink.flushEvery ≤ (s.buffer ++ records).length →
      sink.Ready s.file) :
    ∃ s', sink.buffered.extend s records = (true, s') ∧
      sink.Placed keys init s' (accepted ++ records) ∧
      (Touched s ∨ records ≠ [] → Touched s') := by
  obtain ⟨done, lines, rfl, hlines, hfile⟩ := h
  have hplaced : sink.Placed keys init { s with buffer := s.buffer ++ records }
      (done ++ s.buffer ++ records) :=
    ⟨done, lines, List.append_assoc _ _ _, hlines, hfile⟩
  have htouched : Touched s ∨ records ≠ [] → Touched { s with buffer := s.buffer ++ records } := by
    rintro ((hflag | hne) | hne)
    · exact Or.inl hflag
    · exact Or.inr (List.append_ne_nil_of_left_ne_nil hne _)
    · exact Or.inr (List.append_ne_nil_of_right_ne_nil _ hne)
  unfold BufferedSink.extend
  dsimp only
  split
  next hfull =>
    obtain ⟨s', hflush, -, hplaced', htouched'⟩ :=
      placed_flush hkeys hplaced fun hne => hready ⟨hne, hfull⟩
    exact ⟨s', hflush, hplaced', fun h => htouched' (htouched h)⟩
  next => exact ⟨_, rfl, hplaced, htouched⟩

/-- What `pyarrow` writes of a batch in the columns of the sink. -/
theorem text_of_inColumns {batch : B} {text : List Char}
    (htext : sink.arrow.writeCsv (sink.shouldWriteHeader file) batch = some text)
    (hcolumns : sink.InColumns keys file batch) :
    text = (if sink.shouldWriteHeader file then sink.arrow.header (sink.columns keys) else []) ++
      ((sink.arrow.toPylist batch).map (sink.arrow.line (sink.columns keys))).flatten := by
  rw [sink.arrow.writeCsv_eq _ _ _ htext, ← List.flatMap_def]
  by_cases hshows : sink.arrow.toPylist batch ≠ [] ∨ sink.shouldWriteHeader file = true
  · rw [hcolumns hshows]
  · obtain ⟨hnil, hheader⟩ := not_or.mp hshows
    rw [not_not.mp hnil, if_neg hheader, if_neg hheader]
    rfl

theorem placed_arrow (hkeys : sink.SameColumns keys) {w : World T V} {batch : B}
    (h : sink.Placed keys init w.state accepted) (hmeets : sink.Meets keys w (.arrow batch)) :
    ∃ file, sink.writeArrowBatch w.state.file batch = (true, file) ∧ file.headerWritten = true ∧
      sink.Placed keys init { w.state with file := file }
        (accepted ++ sink.arrow.toPylist batch) := by
  obtain ⟨done, lines, rfl, hlines, hfile⟩ := h
  obtain ⟨hbuffer, hmeets⟩ := hmeets
  -- The records of the batch come after those that are done, since nothing is buffered before them.
  have hplaced : ∀ file added,
      List.Forall₂ (sink.LineOf keys) (sink.arrow.toPylist batch) added →
      sink.FileOk keys init (lines ++ added) file →
      sink.Placed keys init { w.state with file := file }
        (done ++ w.state.buffer ++ sink.arrow.toPylist batch) := by
    intro file added hadded hfile
    obtain hnil | hnil := hbuffer
    · refine ⟨done ++ sink.arrow.toPylist batch, lines ++ added, ?_, ?_, hfile⟩
      · simp [hnil]
      · exact List.rel_append hlines hadded
    · rw [hnil] at hadded ⊢
      cases hadded
      rw [List.append_nil] at hfile
      exact ⟨done, lines, List.append_nil _, hlines, hfile⟩
  rw [writeArrowBatch]
  cases htext : sink.arrow.writeCsv (sink.shouldWriteHeader w.state.file) batch with
  | some text =>
    rw [htext] at hmeets
    refine ⟨_, rfl, rfl, hplaced _
      ((sink.arrow.toPylist batch).map (sink.arrow.line (sink.columns keys))) ?_ ?_⟩
    · rw [List.forall₂_map_right_iff]
      exact List.forall₂_same.mpr fun r _ => Or.inr rfl
    · exact fileOk_writeText hfile (text_of_inColumns htext hmeets)
  | none =>
    rw [htext] at hmeets
    obtain ⟨rows, hrows, hmap⟩ := BufferedSink.exists_mapM_eq_some
      fun r (_ : r ∈ sink.arrow.toPylist batch) => row_ne_none hkeys r
    have hrows' : (sink.arrow.toPylist batch).mapM sink.rowMapper = some rows := hrows
    obtain ⟨hall, hadded⟩ := lines_of_rows hkeys hmap
    dsimp only at hmeets ⊢
    rw [hrows']
    refine ⟨_, rfl, rfl, hplaced _ _ hadded ?_⟩
    split at hmeets
    next hnil =>
      rw [hnil] at hmap
      obtain rfl := List.map_eq_nil_iff.mp hmap
      rw [List.map_nil, List.append_nil]
      exact fileOk_emit_nil hfile hmeets
    next hne =>
      apply (fileOk_emit hfile hmeets ?_ hall).2
      rintro rfl
      exact hne (List.map_eq_nil_iff.mp hmap.symm)

theorem close_of_returned {s' : Buffered CsvFile (CsvRow V) T}
    (h : sink.buffered.flush s = (true, s')) :
    sink.call s (.close : Call T B) = (true, { s' with file := { s'.file with writer := none } }) := by
  rw [call, close, h]
  rfl

theorem step_of_returned {w w' : World T V} {c : Call T B} {s' : Buffered CsvFile (CsvRow V) T}
    (hstep : sink.Step w c w') (hcall : sink.call w.state c = (true, s')) :
    w' = ⟨s', w.accepted ++ sink.records c⟩ := by
  rw [hstep, hcall, if_pos rfl]

/-- What one step keeps. -/
theorem placed_step (hkeys : sink.SameColumns keys) {w w' : World T V} {c : Call T B}
    (h : sink.Placed keys init w.state w.accepted) (hstep : sink.Step w c w')
    (hmeets : sink.Meets keys w c) :
    sink.Placed keys init w'.state w'.accepted ∧ (Touched w.state ∨ c.Writes → Touched w'.state) := by
  cases c with
  | rows c =>
    cases c with
    | write record =>
      obtain ⟨s', hextend, hplaced, htouched⟩ := placed_extend hkeys h hmeets
      obtain rfl := step_of_returned hstep hextend
      exact ⟨hplaced, htouched⟩
    | writeBatch records =>
      obtain ⟨s', hextend, hplaced, htouched⟩ := placed_extend hkeys h hmeets
      obtain rfl := step_of_returned hstep hextend
      exact ⟨hplaced, htouched⟩
    | flush =>
      obtain ⟨s', hflush, -, hplaced, htouched⟩ := placed_flush hkeys h hmeets
      obtain rfl := step_of_returned hstep hflush
      refine ⟨?_, fun hor => htouched (hor.resolve_right fun hne => hne rfl)⟩
      dsimp only [records, RowCall.records]
      rwa [List.append_nil]
  | arrow batch =>
    obtain ⟨file, hwrite, hflag, hplaced⟩ := placed_arrow hkeys h hmeets
    have hcall : sink.call w.state (.arrow batch) = (true, { w.state with file := file }) := by
      rw [call, hwrite]
    obtain rfl := step_of_returned hstep hcall
    exact ⟨hplaced, fun _ => Or.inl hflag⟩
  | close =>
    obtain ⟨s', hflush, -, ⟨done, lines, haccepted, hlines, hfile⟩, htouched⟩ :=
      placed_flush hkeys h hmeets
    obtain rfl := step_of_returned hstep (close_of_returned hflush)
    refine ⟨⟨done, lines, ?_, hlines, fileOk_close hfile⟩, ?_⟩
    · dsimp only [records]
      rwa [List.append_nil]
    · exact fun hor => htouched (hor.resolve_right id)

/-- **In a run that keeps the conditions, the closed file has its header and the line of every record
in order.**  Something must have been written, unless there was nothing to truncate. -/
theorem output_of_meets (hkeys : sink.SameColumns keys) {calls : List (Call T B)} {w : World T V}
    (h : Effect.Runs (fun w c w' => sink.Step w c w' ∧ sink.Meets keys w c) (.start init)
      (calls ++ [.close]) w)
    (hwrites : sink.append = true ∨ init = none ∨ ∃ c ∈ calls, c.Writes) :
    sink.Correct keys init w := by
  obtain ⟨w₁, hrun, hstep, hmeets⟩ := h.last
  obtain ⟨hplaced₁, htouched₁⟩ : sink.Placed keys init w₁.state w₁.accepted ∧
      ((∃ c ∈ calls, c.Writes) → Touched w₁.state) := by
    refine Effect.Runs.invariant
      (I := fun labels w => sink.Placed keys init w.state w.accepted ∧
        ((∃ c ∈ labels, Call.Writes c) → Touched w.state)) ?_ ?_ hrun
    · refine ⟨⟨[], [], rfl, .nil, ?_, Or.inl ⟨rfl, rfl⟩⟩, ?_⟩
      · exact fun _ _ hsome => absurd hsome (by simp [World.start])
      · rintro ⟨c, hc, -⟩
        exact absurd hc (by simp)
    · rintro labels w c w' ⟨hplaced, htouched⟩ ⟨hstep, hmeets⟩
      obtain ⟨hplaced', htouched'⟩ := placed_step hkeys hplaced hstep hmeets
      refine ⟨hplaced', ?_⟩
      rintro ⟨c', hc', hwrites⟩
      obtain hc' | hc' := List.mem_append.mp hc'
      · exact htouched' (Or.inl (htouched ⟨c', hc', hwrites⟩))
      · obtain rfl := List.mem_singleton.mp hc'
        exact htouched' (Or.inr hwrites)
  obtain ⟨⟨done, lines, haccepted, hlines, -, hfile⟩, htouched⟩ :=
    placed_step hkeys hplaced₁ hstep hmeets
  have hbuffer : w.state.buffer = [] := by
    obtain ⟨s', hflush, hempty, -, -⟩ := placed_flush hkeys hplaced₁ hmeets
    obtain rfl := step_of_returned hstep (close_of_returned hflush)
    exact hempty
  rw [hbuffer, List.append_nil] at haccepted
  obtain ⟨hfile, rfl⟩ | ⟨-, header, hheader, hcontent⟩ := hfile
  · -- Nothing was written.
    obtain rfl : done = [] := List.forall₂_nil_right_iff.mp hlines
    have huntouched : ¬ Touched w.state := by
      rintro (hflag | hne)
      · rw [hfile] at hflag
        exact Bool.false_ne_true hflag
      · exact hne hbuffer
    cases init with
    | none => exact Or.inl ⟨haccepted, rfl, by rw [hfile]⟩
    | some content =>
      have happend : sink.append = true := by
        obtain happend | hnone | hsome := hwrites
        · exact happend
        · exact absurd hnone (by simp)
        · exact absurd (htouched (Or.inl (htouched₁ hsome))) huntouched
      right
      refine ⟨[], [], ?_, by rw [haccepted]; exact .nil, ?_⟩
      · rw [HeaderOf, if_pos ⟨happend, rfl⟩]
      · rw [hfile, kept, if_pos happend]
        simp
  · right
    refine ⟨header, lines, hheader, ?_, hcontent⟩
    rw [haccepted]
    exact hlines

/-! ### A sink of two columns -/

/-- The record has values for the columns `a` and `b`. -/
abbrev Pair : Type := List Char × List Char

/-- The value of a record in a column. -/
def Pair.value (p : Pair) (name : List Char) : List Char := if name = ['a'] then p.1 else p.2

/-- A line in which everything is quoted. -/
def quotedLine (cells : List (List Char)) : List Char :=
  List.intercalate [','] (cells.map fun text =>
    '"' :: (text.flatMap fun c => if c = '"' then ['"', '"'] else [c]) ++ ['"']) ++ ['\n']

/-- What Arrow makes of strings: everything is quoted.  A batch has its columns and its records. -/
def quotedArrow : PyArrowCsv Pair (List (List Char) × List Pair) where
  toPylist := Prod.snd
  columnNames := Prod.fst
  writeCsv includeHeader batch :=
    some ((if includeHeader then quotedLine batch.1 else []) ++
      batch.2.flatMap fun p => quotedLine (batch.1.map p.value))
  header := quotedLine
  line names p := quotedLine (names.map p.value)
  writeCsv_eq _ _ _ h := (Option.some.inj h).symm

/-- The column `b` is to come first. -/
def twoColumns (append : Bool) : CsvSink Pair (List Char) (List (List Char) × List Pair) where
  rowMapper p := some ⟨[(['a'], p.1), (['b'], p.2)], by simp⟩
  fieldnames := some [['b'], ['a']]
  append := append
  flushEvery := 1
  delimiter := ','
  str := id
  arrow := quotedArrow

theorem sameColumns_twoColumns (append : Bool) : (twoColumns append).SameColumns [['a'], ['b']] :=
  fun _ => ⟨_, rfl, rfl⟩

/-- A row, and a batch whose columns are in the order of the sink. -/
theorem output_of_row_then_batch : ∃ w : World Pair (List Char),
    w.accepted = [(['x'], ['y']), (['z'], ['t'])] ∧
      (twoColumns false).Correct [['a'], ['b']] (some [1]) w := by
  have hready : (twoColumns false).Ready ⟨some [1], false, none⟩ :=
    fun hboth => absurd hboth.1 (by decide)
  have hrun : ∃ w : World Pair (List Char), w.accepted = [(['x'], ['y']), (['z'], ['t'])] ∧
      Effect.Runs (fun w c w' => (twoColumns false).Step w c w' ∧
          (twoColumns false).Meets [['a'], ['b']] w c) (.start (some [1]))
        ([.rows (.write (['x'], ['y'])), .arrow ([['b'], ['a']], [(['z'], ['t'])])] ++ [.close])
        w := by
    refine ⟨_, ?_, .snoc (.snoc (.snoc .start ⟨rfl, ?_⟩) ⟨rfl, ?_⟩) ⟨rfl, ?_⟩⟩
    · decide
    · exact ⟨Or.inl rfl, fun _ => rfl⟩
    · exact fun hne => absurd rfl hne
    · exact fun _ => hready
  obtain ⟨w, haccepted, hrun⟩ := hrun
  exact ⟨w, haccepted, output_of_meets (sameColumns_twoColumns false) hrun
    (Or.inr (Or.inr ⟨_, List.mem_cons_self, List.cons_ne_nil _ _⟩))⟩

/-- A file that is missing is created before it is asked for, so that the header that should be in it is
not written. -/
theorem header_missing : ∃ w : World Pair (List Char),
    Effect.Runs (twoColumns true).Step (.start none) [.rows (.write (['x'], ['y'])), .close] w ∧
      ¬ (twoColumns true).Correct [['a'], ['b']] none w := by
  refine ⟨_, .snoc (.snoc .start rfl) rfl, ?_⟩
  rintro (⟨-, -, hcontent⟩ | ⟨header, lines, hheader, hlines, hcontent⟩)
  · exact absurd hcontent (by decide)
  · obtain ⟨text, rest, hline, hrest, rfl⟩ := List.forall₂_cons_left_iff.mp hlines
    obtain rfl := List.forall₂_nil_left_iff.mp hrest
    rw [HeaderOf, if_neg (by decide)] at hheader
    obtain ⟨row, hrow, rfl⟩ | rfl := hline
    · obtain rfl := Option.some.inj hrow
      obtain rfl | rfl := hheader
      · exact absurd hcontent (by decide)
      · exact absurd hcontent (by decide)
    · obtain rfl | rfl := hheader
      · exact absurd hcontent (by decide)
      · exact absurd hcontent (by decide)

end AgoraEtl.CsvSink
