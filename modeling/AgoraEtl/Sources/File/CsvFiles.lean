import AgoraEtl.Data.CsvText
import AgoraEtl.Sinks.File.Csv
import AgoraEtl.Sources.File.Text

/-!
# CSV files that are written and read

What the CSV sink writes is what the CSV source reads.  A row of the sink is read as a row of strings,
one for each column of the header, and no quoting, delimiter or end of a line within a value gets in
between; a file that several runs have added to has the rows of all of them.
-/

namespace AgoraEtl.File

open CsvText

/-! ### One row -/

section Row

variable {delimiter : Char}

/-- A delimiter that can be told from quotes and from the ends of lines. -/
def Separates (delimiter : Char) : Prop := delimiter ≠ '"' ∧ delimiter ≠ '\r' ∧ delimiter ≠ '\n'

/-- The cell is written in quotes. -/
def Special (delimiter : Char) (text : List Char) : Prop :=
  ∃ c ∈ text, c = delimiter ∨ c = '"' ∨ c = '\r' ∨ c = '\n'

instance (delimiter : Char) (text : List Char) : Decidable (Special delimiter text) :=
  inferInstanceAs (Decidable (∃ c ∈ text, _))

/-- A quote is doubled. -/
def doubled (text : List Char) : List Char := text.flatMap fun c => if c == '"' then ['"', '"'] else [c]

/-- A cell with a special character is quoted. -/
theorem cell_of_special {text : List Char} (h : Special delimiter text) :
    CsvSink.cell delimiter text = '"' :: doubled text ++ ['"'] := by
  refine if_pos (List.any_eq_true.mpr ?_)
  obtain ⟨c, hc, hspecial⟩ := h
  exact ⟨c, hc, by simpa [or_assoc] using hspecial⟩

/-- Any other one is written as it is. -/
theorem cell_of_not_special {text : List Char} (h : ¬ Special delimiter text) :
    CsvSink.cell delimiter text = text := by
  refine if_neg fun hany => h ?_
  obtain ⟨c, hc, hspecial⟩ := List.any_eq_true.mp hany
  exact ⟨c, hc, by simpa [or_assoc] using hspecial⟩

variable {field text rest : List Char} {fields : List (List Char)}

/-- A quoted cell is read up to its quotation mark. -/
theorem readText_doubled (hrest : rest ≠ []) (hlength : (field ++ text).length ≤ fieldSizeLimit) :
    readText delimiter ⟨.inQuotedField, field, fields⟩ (doubled text ++ '"' :: rest) =
      readText delimiter ⟨.quoteInQuotedField, field ++ text, fields⟩ rest := by
  induction text generalizing field with
  | nil =>
    rw [doubled, List.flatMap_nil, List.nil_append, List.append_nil]
    exact readText_cons (by simp) hrest rfl
  | cons c text ih =>
    have hfield : field.length < fieldSizeLimit := by
      rw [List.length_append, List.length_cons] at hlength
      omega
    have hlater : ((field ++ [c]) ++ text).length ≤ fieldSizeLimit := by
      rwa [List.append_assoc, List.singleton_append]
    have hnext := ih hlater
    rw [List.append_assoc, List.singleton_append] at hnext
    rw [← hnext, doubled, List.flatMap_cons]
    by_cases hc : c = '"'
    · subst hc
      rw [if_pos (by simp), List.append_assoc]
      -- the first quote leaves the field, and the second one is a part of it
      rw [List.cons_append, readText_cons (s := ⟨.quoteInQuotedField, field, fields⟩) (by simp) (by simp) rfl]
      refine readText_cons (by simp) (by simp) ?_
      rw [Reader.process]
      dsimp only
      rw [if_pos rfl, Reader.addChar, if_neg (by simpa using hfield)]
    · rw [if_neg (by simpa using hc), List.append_assoc]
      exact readText_quoted hc hfield

/-- A special text stays so with another character before it. -/
theorem Special.cons (c : Char) (h : Special delimiter text) : Special delimiter (c :: text) := by
  obtain ⟨d, hd, hspecial⟩ := h
  exact ⟨d, List.mem_cons_of_mem _ hd, hspecial⟩

/-- A plain cell is read up to what follows it. -/
theorem readText_plain (hrest : rest ≠ []) (hlength : (field ++ text).length ≤ fieldSizeLimit)
    (hplain : ¬ Special delimiter text) :
    readText delimiter ⟨.inField, field, fields⟩ (text ++ rest) =
      readText delimiter ⟨.inField, field ++ text, fields⟩ rest := by
  induction text generalizing field with
  | nil => rw [List.nil_append, List.append_nil]
  | cons c text ih =>
    have hlater : ((field ++ [c]) ++ text).length ≤ fieldSizeLimit := by
      rwa [List.append_assoc, List.singleton_append]
    have hnext := ih hlater (mt (Special.cons c) hplain)
    rw [List.append_assoc, List.singleton_append] at hnext
    have hc : ¬ (c = delimiter ∨ c = '"' ∨ c = '\r' ∨ c = '\n') := fun h =>
      hplain ⟨c, List.mem_cons_self, h⟩
    simp only [not_or] at hc
    rw [← hnext, List.cons_append]
    refine readText_cons ⟨hc.2.2.2, hc.2.2.1⟩ (by simp [hrest]) ?_
    rw [Reader.process]
    dsimp only
    rw [List.length_append, List.length_cons] at hlength
    rw [if_neg (by simp [hc]), if_neg hc.1, Reader.addChar, if_neg (by dsimp only; omega)]

/-- The reader after a cell. -/
def afterCell (delimiter : Char) (state : State) (fields : List (List Char)) (text : List Char) : Reader :=
  if Special delimiter text then ⟨.quoteInQuotedField, text, fields⟩
  else if text = [] then ⟨state, [], fields⟩
  else ⟨.inField, text, fields⟩

/-- A cell is read from where a field starts. -/
theorem readText_cell {state : State} (hstate : state = .startRecord ∨ state = .startField)
    (hrest : rest ≠ []) (hlength : text.length ≤ fieldSizeLimit) :
    readText delimiter ⟨state, [], fields⟩ (CsvSink.cell delimiter text ++ rest) =
      readText delimiter (afterCell delimiter state fields text) rest := by
  unfold afterCell
  split
  · rename_i hspecial
    rw [cell_of_special hspecial, List.cons_append, List.cons_append, List.append_assoc]
    have hquote : Reader.process ⟨state, [], fields⟩ delimiter '"' =
        .ok ⟨.inQuotedField, [], fields⟩ := by
      rcases hstate with rfl | rfl <;> rfl
    rw [readText_cons (by simp) (by simp) hquote, List.singleton_append]
    exact readText_doubled hrest hlength
  · rename_i hplain
    rw [cell_of_not_special hplain]
    cases text with
    | nil => rfl
    | cons c text =>
      have hc : ¬ (c = delimiter ∨ c = '"' ∨ c = '\r' ∨ c = '\n') := fun h =>
        hplain ⟨c, List.mem_cons_self, h⟩
      simp only [not_or] at hc
      have hadd : Reader.addChar ⟨state, [], fields⟩ c .inField = .ok ⟨.inField, [c], fields⟩ :=
        if_neg (by simp [fieldSizeLimit])
      have hstart : Reader.startField ⟨state, [], fields⟩ delimiter c = .ok ⟨.inField, [c], fields⟩ := by
        rw [Reader.startField, if_neg (by simp [hc]), if_neg hc.2.1, if_neg hc.1, hadd]
      have hprocess : Reader.process ⟨state, [], fields⟩ delimiter c = .ok ⟨.inField, [c], fields⟩ := by
        rcases hstate with rfl | rfl
        · rw [Reader.process]
          dsimp only
          rw [if_neg (by simp [hc]), hstart]
        · exact hstart
      rw [if_neg (by simp), List.cons_append, readText_cons ⟨hc.2.2.2, hc.2.2.1⟩ (by simp [hrest]) hprocess]
      exact readText_plain hrest hlength (mt (Special.cons c) hplain)

/-- A delimiter ends a cell. -/
theorem process_delimiter (hdelimiter : Separates delimiter) {state : State}
    (hstate : state = .startRecord ∨ state = .startField) (fields : List (List Char)) (text : List Char) :
    (afterCell delimiter state fields text).process delimiter delimiter =
      .ok ⟨.startField, [], fields ++ [text]⟩ := by
  obtain ⟨hquote, hreturn, hnewline⟩ := hdelimiter
  unfold afterCell
  split
  · rw [Reader.process]
    dsimp only
    rw [if_neg hquote, if_pos rfl]
    rfl
  · split
    · rename_i htext
      subst htext
      rcases hstate with rfl | rfl <;>
        simp [Reader.process, Reader.startField, hquote, hreturn, hnewline, Reader.saveField]
    · rw [Reader.process]
      dsimp only
      rw [if_neg (by simp [hreturn, hnewline]), if_pos rfl]
      rfl

/-- A return ends a row. -/
theorem process_return (hdelimiter : Separates delimiter) {state : State}
    (hstate : state = .startRecord ∧ text ≠ [] ∨ state = .startField) (fields : List (List Char)) :
    (afterCell delimiter state fields text).process delimiter '\r' =
      .ok ⟨.eatCrnl, [], fields ++ [text]⟩ := by
  unfold afterCell
  split
  · rw [Reader.process]
    dsimp only
    rw [if_neg (by simp), if_neg (Ne.symm hdelimiter.2.1), if_pos (.inr rfl)]
    rfl
  · split
    · rename_i htext
      subst htext
      rcases hstate with ⟨-, hne⟩ | rfl
      · exact absurd rfl hne
      · rfl
    · rfl

/-- The cells of a row that are left, up to the end of the row. -/
theorem readText_cells (hdelimiter : Separates delimiter) {cells : List (List Char)} {state : State}
    (hstate : state = .startRecord ∧ text :: cells ≠ [[]] ∨ state = .startField)
    (hlength : ∀ cell ∈ text :: cells, cell.length ≤ fieldSizeLimit) :
    readText delimiter ⟨state, [], fields⟩
        (List.intercalate [delimiter] ((text :: cells).map (CsvSink.cell delimiter)) ++ '\r' :: '\n' :: rest) =
      (readText delimiter .start rest).cons (fields ++ text :: cells) := by
  have hfirst := hlength text List.mem_cons_self
  have hstart : state = .startRecord ∨ state = .startField := hstate.imp_left And.left
  induction cells generalizing text state fields with
  | nil =>
    rw [List.map_singleton, List.intercalate_singleton]
    rw [readText_cell hstart (by simp) hfirst]
    refine readText_newline (process_return hdelimiter (hstate.imp_left fun h => ⟨h.1, ?_⟩) fields) rfl
    rintro rfl
    exact h.2 rfl
  | cons next cells ih =>
    have hlater : ∀ cell ∈ next :: cells, cell.length ≤ fieldSizeLimit := fun cell hcell =>
      hlength cell (List.mem_cons_of_mem _ hcell)
    rw [List.map_cons, List.map_cons, List.intercalate_cons_cons, List.append_assoc, List.append_assoc]
    rw [readText_cell hstart (by simp) hfirst, List.singleton_append]
    rw [readText_cons ⟨hdelimiter.2.2, hdelimiter.2.1⟩ (by simp)
      (process_delimiter hdelimiter hstart fields text)]
    have hrow := @ih next (fields ++ [text]) .startField (.inr rfl) hlater
      (hlater next List.mem_cons_self) (.inr rfl)
    rw [List.map_cons] at hrow
    rw [hrow, List.append_assoc, List.singleton_append]

/-- A row is read as it was written. -/
theorem readText_writeRow (hdelimiter : Separates delimiter) {cells : List (List Char)}
    (hlength : ∀ cell ∈ cells, cell.length ≤ fieldSizeLimit) (rest : List Char) :
    readText delimiter .start (CsvSink.writeRow delimiter cells ++ rest) =
      (readText delimiter .start rest).cons cells := by
  unfold CsvSink.writeRow
  dsimp only
  rw [List.append_assoc]
  cases cells with
  | nil => exact readText_newline (s := ⟨.eatCrnl, [], []⟩) rfl rfl
  | cons text cells =>
    by_cases hempty : text :: cells = [[]]
    · obtain ⟨rfl, rfl⟩ := List.cons_eq_cons.mp hempty
      -- a single empty cell is written in quotes
      rw [if_pos rfl, List.intercalate_singleton, List.cons_append,
        readText_cons (s := ⟨.inQuotedField, [], []⟩) (by simp) (by simp) rfl]
      rw [List.cons_append, readText_cons (s := ⟨.quoteInQuotedField, [], []⟩) (by simp) (by simp) rfl]
      refine readText_newline (s := ⟨.eatCrnl, [], [[]]⟩) ?_ rfl
      rw [Reader.process]
      dsimp only
      rw [if_neg (by simp), if_neg (Ne.symm hdelimiter.2.1), if_pos (.inr rfl)]
      rfl
    · rw [if_neg hempty]
      exact readText_cells hdelimiter (.inl ⟨rfl, hempty⟩) hlength

/-- Rows are read as they were written. -/
theorem readText_writeRows (hdelimiter : Separates delimiter) {rows : List (List (List Char))}
    (hlength : ∀ row ∈ rows, ∀ cell ∈ row, cell.length ≤ fieldSizeLimit) :
    readText delimiter .start (rows.flatMap (CsvSink.writeRow delimiter)) = ⟨rows, none⟩ := by
  induction rows with
  | nil => rfl
  | cons row rows ih =>
    rw [List.flatMap_cons, readText_writeRow hdelimiter (hlength row List.mem_cons_self),
      ih fun row' hrow' => hlength row' (List.mem_cons_of_mem _ hrow')]
    rfl

end Row

/-! ### A file -/

section Written

variable {S V B : Type}

/-- What a row has in the columns; a missing value is empty. -/
def cellsOf (str : V → List Char) (names : List (List Char)) (row : AgoraEtl.CsvRow V) : List (List Char) :=
  names.map fun name => ((row.get? name).map str).getD []

/-- A file that runs of sinks have written, the first one anew and the later ones at its end, all of them
with the same columns; and the rows that they have written. -/
inductive Written (str : V → List Char) (delimiter : Char) (names : List (List Char)) :
    Option Bytes → List (AgoraEtl.CsvRow V) → Prop
  | anew {sink : CsvSink S V B} {init : Option Bytes} {calls : List (RowCall S)}
      {w : BufferedSink.World CsvFile (AgoraEtl.CsvRow V) S} {row : AgoraEtl.CsvRow V}
      {rows : List (AgoraEtl.CsvRow V)} (hstr : sink.str = str) (hdelimiter : sink.delimiter = delimiter)
      (happend : sink.append = false)
      (hrun : Effect.Runs sink.buffered.Step (.start ⟨init, false, none⟩) calls w)
      (hrows : w.state.rows = row :: rows) (hnames : sink.columns row.keys = names) :
      Written str delimiter names w.state.file.content w.state.rows
  | more {sink : CsvSink S V B} {content : Option Bytes} {calls : List (RowCall S)}
      {w : BufferedSink.World CsvFile (AgoraEtl.CsvRow V) S} {rows : List (AgoraEtl.CsvRow V)}
      (hfile : Written str delimiter names content rows) (hstr : sink.str = str)
      (hdelimiter : sink.delimiter = delimiter) (happend : sink.append = true)
      (hrun : Effect.Runs sink.buffered.Step (.start ⟨content, false, none⟩) calls w)
      (hnames : ∀ row ∈ w.state.rows.head?, sink.columns row.keys = names) :
      Written str delimiter names w.state.file.content (rows ++ w.state.rows)

variable {str : V → List Char} {delimiter : Char} {names : List (List Char)} {content : Option Bytes}
  {rows : List (AgoraEtl.CsvRow V)}

/-- The file has the header and the lines of the rows. -/
theorem Written.content_eq (h : Written (S := S) (B := B) str delimiter names content rows) :
    content = some (utf8 ((names :: rows.map (cellsOf str names)).flatMap (CsvSink.writeRow delimiter))) := by
  have hlines : ∀ (sink : CsvSink S V B) (rows : List (AgoraEtl.CsvRow V)), sink.str = str →
      sink.delimiter = delimiter → rows.flatMap (sink.line names) =
        (rows.map (cellsOf str names)).flatMap (CsvSink.writeRow delimiter) := by
    intro sink rows hstr hdelimiter
    rw [List.flatMap_map, ← hstr, ← hdelimiter]
    rfl
  induction h with
  | @anew sink init calls w row rows hstr hdelimiter happend hrun hrows hnames =>
    rw [CsvSink.content_of_rows hrun, hrows, CsvSink.shown, CsvSink.keptContent, CsvSink.firstText, hnames,
      hlines sink _ hstr hdelimiter, happend, CsvSink.header, hdelimiter]
    rfl
  | @more sink content calls w rows hfile hstr hdelimiter happend hrun hnames ih =>
    have hshown := CsvSink.content_of_rows hrun
    rw [hshown]
    cases hrows : w.state.rows with
    | nil => rw [CsvSink.shown, List.append_nil, ih]
    | cons row later =>
      rw [hrows] at hnames
      rw [CsvSink.shown, CsvSink.keptContent, CsvSink.firstText, hnames row rfl,
        hlines sink _ hstr hdelimiter, happend, ih]
      simp

end Written

/-! ### Reading it back -/

variable {ε T S V B : Type}

/-- The rows of `csv.reader`, and the error that it raises after them. -/
def csvReader (delimiter : Char) (text : List Char) : List (List String) × Option CsvError :=
  let read := readText delimiter .start text
  (read.rows.map fun row => row.map String.ofList, read.error)

/-- A row of strings under the columns. -/
def readBack (str : V → List Char) (names : List (List Char)) (row : AgoraEtl.CsvRow V) : CsvRow :=
  OrderedDict.ofEntries (names.map fun name =>
    (some (String.ofList name), .text (String.ofList (((row.get? name).map str).getD []))))

/-- The row is not left out as a blank one. -/
def CsvSource.Keeps (source : CsvSource ε T) (str : V → List Char) (names : List (List Char))
    (row : AgoraEtl.CsvRow V) : Prop :=
  names ≠ [] ∧ ¬ (source.skipBlankLines = true ∧ ∀ cell ∈ cellsOf str names row, cell = [])

instance (source : CsvSource ε T) (str : V → List Char) (names : List (List Char))
    (row : AgoraEtl.CsvRow V) : Decidable (source.Keeps str names row) :=
  inferInstanceAs (Decidable (_ ∧ _))

/-- A row is read back under the names. -/
theorem zipRow_cellsOf (str : V → List Char) (names : List (List Char)) (row : AgoraEtl.CsvRow V) :
    zipRow (names.map String.ofList) ((cellsOf str names row).map String.ofList) = readBack str names row := by
  unfold zipRow readBack cellsOf
  rw [List.map_map, List.zip_map', List.map_map]
  rfl

/-- What is read of a row is the row, unless it is left out. -/
theorem dataRow_cellsOf (source : CsvSource ε T) (str : V → List Char) (names : List (List Char))
    (row : AgoraEtl.CsvRow V) :
    source.dataRow (names.map String.ofList) ((cellsOf str names row).map String.ofList) =
      if source.Keeps str names row then some (readBack str names row) else none := by
  have hlength : (cellsOf str names row).length = names.length := List.length_map _
  have hempty : ((cellsOf str names row).map String.ofList).isEmpty = true ↔ names = [] := by
    rw [List.isEmpty_iff, List.map_eq_nil_iff, ← List.length_eq_zero_iff, hlength, List.length_eq_zero_iff]
  have hblank : valuesAllEmpty ((cellsOf str names row).map String.ofList) = true ↔
      ∀ cell ∈ cellsOf str names row, cell = [] := by
    simp [valuesAllEmpty]
  have hskip : (source.skipBlankLines && valuesAllEmpty ((cellsOf str names row).map String.ofList)) = true ↔
      source.skipBlankLines = true ∧ ∀ cell ∈ cellsOf str names row, cell = [] := by
    rw [Bool.and_eq_true, hblank]
  unfold CsvSource.dataRow
  by_cases hkeeps : source.Keeps str names row
  · rw [if_neg (mt hempty.mp hkeeps.1), if_neg (mt hskip.mp hkeeps.2), List.length_map, List.length_map,
      if_pos hlength, if_pos hkeeps, zipRow_cellsOf]
  · rw [if_neg hkeeps]
    by_cases hnames : names = []
    · exact if_pos (hempty.mpr hnames)
    · rw [if_neg (mt hempty.mp hnames)]
      refine if_pos (hskip.mpr ?_)
      by_contra hnot
      exact hkeeps ⟨hnames, hnot⟩

variable {str : V → List Char} {delimiter : Char} {names : List (List Char)} {content : Option Bytes}
  {rows : List (AgoraEtl.CsvRow V)}

/-- No field of the file is longer than the reader allows. -/
def Readable (str : V → List Char) (names : List (List Char)) (rows : List (AgoraEtl.CsvRow V)) : Prop :=
  ∀ row ∈ names :: rows.map (cellsOf str names), ∀ cell ∈ row, cell.length ≤ fieldSizeLimit

instance (str : V → List Char) (names : List (List Char)) (rows : List (AgoraEtl.CsvRow V)) :
    Decidable (Readable str names rows) :=
  inferInstanceAs (Decidable (∀ row ∈ _, ∀ cell ∈ row, _))

/-- With a header the rows that are kept are read back. -/
theorem iterDictRows_cellsOf {source : CsvSource ε T} (hheader : source.hasHeader = true)
    (rows : List (AgoraEtl.CsvRow V)) :
    source.iterDictRows ((names :: rows.map (cellsOf str names)).map fun row => row.map String.ofList) =
      (rows.filter fun row => source.Keeps str names row).map (readBack str names) := by
  unfold CsvSource.iterDictRows
  rw [if_pos hheader, List.map_cons]
  dsimp only
  rw [List.map_map]
  induction rows with
  | nil => rfl
  | cons row rows ih =>
    rw [List.map_cons, List.filterMap_cons, Function.comp_apply, dataRow_cellsOf, ih]
    by_cases hkeeps : source.Keeps str names row
    · rw [if_pos hkeeps, List.filter_cons_of_pos (by simpa using hkeeps), List.map_cons]
    · rw [if_neg hkeeps, List.filter_cons_of_neg (by simpa using hkeeps)]

/-- A source whose mapper gives a record for each row. -/
theorem syncLoop_of_records {Row Item Raw : Type} (settings : RowSettings ε T Row Item Raw) {record : Row → T}
    {rows : List Row} (h : ∀ row ∈ rows, settings.handle (settings.read row) = .record (record row))
    (resume number : ℕ) (progress : Progress) :
    (settings.syncLoop resume rows number progress).records = (rows.drop (resume - number)).map record ∧
      (settings.syncLoop resume rows number progress).ended = .finished := by
  induction rows generalizing number progress with
  | nil => simp [RowSettings.syncLoop, SourceRun.records, SourceRun.finish]
  | cons row rows ih =>
    have hlater := ih fun row' hrow' => h row' (List.mem_cons_of_mem _ hrow')
    rw [RowSettings.syncLoop]
    by_cases hskip : number + 1 ≤ resume
    · rw [if_pos hskip]
      obtain ⟨k, hk⟩ : ∃ k, resume - number = k + 1 := ⟨resume - number - 1, by omega⟩
      have hk' : resume - (number + 1) = k := by omega
      rw [hk, List.drop_succ_cons, ← hk']
      exact hlater (number + 1) progress
    · have hzero : resume - number = 0 := by omega
      have hzero' : resume - (number + 1) = 0 := by omega
      have htake : settings.takeRow (number + 1) (settings.read row) progress =
          .emit (record row) (progress.reached (number + 1)) := by
        rw [RowSettings.takeRow, h row List.mem_cons_self]
      rw [if_neg hskip, htake, hzero, List.drop_zero, List.map_cons]
      obtain ⟨hrecords, hended⟩ := hlater (number + 1) (progress.reached (number + 1))
      rw [hzero', List.drop_zero] at hrecords
      exact ⟨congrArg _ hrecords, hended⟩

/-- What runs of the sink have written to a file is what a source reads: the reader raises no error, its
rows are those that were written, except for the blank ones that the source leaves out, and a run that is
resumed yields the records of the rows after the first that it has seen. -/
theorem csv_round_trip (h : Written (S := S) (B := B) str delimiter names content rows)
    (hdelimiter : Separates delimiter) (hreadable : Readable str names rows) {source : CsvSource ε T}
    (hheader : source.hasHeader = true) :
    ∃ text, content = some (utf8 text) ∧ (csvReader delimiter text).2 = none ∧
      let kept := (rows.filter fun row => source.Keeps str names row).map (readBack str names)
      source.iterDictRows (csvReader delimiter text).1 = kept ∧
      ∀ decode : CsvRow → T, (∀ row ∈ kept, source.rowMapper row = .ok (some (decode row))) →
        ∀ value, let run := (source.resumedAt value).streamSyncBatches (csvReader delimiter text).1
          run.records = (kept.drop (source.settings.numberOf value)).map decode ∧ run.ended = .finished := by
  refine ⟨_, h.content_eq, ?_⟩
  unfold csvReader
  rw [readText_writeRows hdelimiter hreadable]
  refine ⟨rfl, iterDictRows_cellsOf hheader rows, fun decode hdecode value => ?_⟩
  have hrows : (source.resumedAt value).iterDictRows
      ((names :: rows.map (cellsOf str names)).map fun row => row.map String.ofList) =
        (rows.filter fun row => source.Keeps str names row).map (readBack str names) :=
    iterDictRows_cellsOf hheader rows
  unfold CsvSource.streamSyncBatches
  dsimp only
  rw [hrows]
  refine syncLoop_of_records (source.resumedAt value).settings (fun row hrow => ?_) _ 0 _
  simp only [CsvSource.settings, CsvSource.resumedAt, id_eq, hdecode row hrow]

/-! ### Notes -/

def noArrow : PyArrowCsv (List Char × List Char) Unit where
  toPylist _ := []
  columnNames _ := []
  writeCsv _ _ := none
  header _ := []
  line _ _ := []
  writeCsv_eq _ _ _ h := by cases h

/-- The row of a numbered note. -/
def noteRow (note : List Char × List Char) : AgoraEtl.CsvRow (List Char) :=
  ⟨[("id".toList, note.1), ("note".toList, note.2)], by simp⟩

def notesSink (append : Bool) : CsvSink (List Char × List Char) (List Char) Unit where
  rowMapper note := some (noteRow note)
  fieldnames := none
  append := append
  flushEvery := 1
  delimiter := ','
  str := id
  arrow := noArrow

/-- The number of a note, and its text. -/
def noteOf (row : CsvRow) : Cell × Cell :=
  ((row.get? (some "id")).getD .missing, (row.get? (some "note")).getD .missing)

def notesSource : CsvSource Unit (Cell × Cell) where
  rowMapper row := .ok (some (noteOf row))

/-- A file of notes. -/
abbrev WrittenNotes (content : Option Bytes) (notes : List (AgoraEtl.CsvRow (List Char))) : Prop :=
  Written (S := List Char × List Char) (B := Unit) id ',' ["id".toList, "note".toList] content notes

/-- A note with all that is special, and an empty one that is added by another run. -/
theorem csv_round_trip_notes : ∃ content text,
    WrittenNotes content [noteRow ("1".toList, "a,\"b\"\r\nc".toList), noteRow ("2".toList, [])] ∧
      content = some (utf8 text) ∧ (notesSource.streamSyncBatches (csvReader ',' text).1).records =
        [(.text "1", .text "a,\"b\"\r\nc"), (.text "2", .text "")] := by
  obtain ⟨w, hrun, hrows⟩ : ∃ w, Effect.Runs (notesSink false).buffered.Step (.start ⟨none, false, none⟩)
      [.write ("1".toList, "a,\"b\"\r\nc".toList)] w ∧
        w.state.rows = [noteRow ("1".toList, "a,\"b\"\r\nc".toList)] := ⟨_, .snoc .start rfl, rfl⟩
  obtain ⟨v, hrun', hrows'⟩ : ∃ v, Effect.Runs (notesSink true).buffered.Step
      (.start ⟨w.state.file.content, false, none⟩) [.write ("2".toList, [])] v ∧
        v.state.rows = [noteRow ("2".toList, [])] := ⟨_, .snoc .start rfl, rfl⟩
  have hfirst : WrittenNotes w.state.file.content w.state.rows :=
    .anew (by rfl) (by rfl) (by rfl) hrun hrows (by rfl)
  have hboth : WrittenNotes v.state.file.content (w.state.rows ++ v.state.rows) := by
    refine .more hfirst (by rfl) (by rfl) (by rfl) hrun' ?_
    rw [hrows']
    intro row hrow
    cases hrow
    rfl
  rw [hrows, hrows'] at hboth
  obtain ⟨text, hcontent, -, -, hrecords⟩ := csv_round_trip hboth
    ⟨by decide, by decide, by decide⟩ (by decide) (rfl : notesSource.hasHeader = true)
  exact ⟨_, text, hboth, hcontent, (hrecords noteOf (fun row _ => rfl) none).1.trans (by decide)⟩

end AgoraEtl.File
