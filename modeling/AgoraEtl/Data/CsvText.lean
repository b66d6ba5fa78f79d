import Mathlib.Data.List.Basic

/-!
# Reading CSV text

The reader of Python's `csv` module for a delimiter, with `"` as the quote, which is doubled in a quoted
field.  It is fed the lines of a text with their ends, and after each of them the end of the line.

The rules say what the reader does with the text from its state on: within a quoted field the ends of
lines do not matter, so that the text can be read character by character.
-/

namespace AgoraEtl.CsvText

/-! ### Lines -/

/-- The lines of a text that was opened with `newline=""`, with their ends: `\n`, `\r` or both. -/
def splitLines : List Char → List (List Char)
  | [] => []
  | '\r' :: '\n' :: rest => ['\r', '\n'] :: splitLines rest
  | c :: rest =>
    if c = '\n' ∨ c = '\r' then [c] :: splitLines rest
    else match splitLines rest with
      | [] => [[c]]
      | line :: lines => (c :: line) :: lines

/-! ### The reader -/

/-- The states of the reader; `startRecord` is the one before a row and after its end. -/
inductive State where
  | startRecord
  | startField
  | inField
  | inQuotedField
  | quoteInQuotedField
  | eatCrnl
  deriving DecidableEq

inductive CsvError where
  | fieldLimit
  | newLineInUnquotedField
  deriving DecidableEq

/-- The state, the field that is being read and the fields before it. -/
structure Reader where
  state : State
  field : List Char
  fields : List (List Char)
  deriving DecidableEq

/-- `csv.field_size_limit()`. -/
def fieldSizeLimit : ℕ := 131072

/-- A reader before a row. -/
def Reader.start : Reader := ⟨.startRecord, [], []⟩

namespace Reader

variable (r : Reader)

/-- `parse_save_field`. -/
def saveField (state : State) : Reader := ⟨state, [], r.fields ++ [r.field]⟩

/-- `parse_add_char`. -/
def addChar (c : Char) (state : State) : Except CsvError Reader :=
  if fieldSizeLimit ≤ r.field.length then .error .fieldLimit
  else .ok ⟨state, r.field ++ [c], r.fields⟩

/-- A character at the start of a field. -/
def startField (delimiter c : Char) : Except CsvError Reader :=
  if c = '\n' ∨ c = '\r' then .ok (r.saveField .eatCrnl)
  else if c = '"' then .ok { r with state := .inQuotedField }
  else if c = delimiter then .ok (r.saveField .startField)
  else r.addChar c .inField

/-- `parse_process_char`. -/
def process (delimiter c : Char) : Except CsvError Reader :=
  match r.state with
  | .startRecord => if c = '\n' ∨ c = '\r' then .ok { r with state := .eatCrnl } else r.startField delimiter c
  | .startField => r.startField delimiter c
  | .inField =>
    if c = '\n' ∨ c = '\r' then .ok (r.saveField .eatCrnl)
    else if c = delimiter then .ok (r.saveField .startField)
    else r.addChar c .inField
  | .inQuotedField =>
    if c = '"' then .ok { r with state := .quoteInQuotedField } else r.addChar c .inQuotedField
  | .quoteInQuotedField =>
    if c = '"' then r.addChar c .inQuotedField
    else if c = delimiter then .ok (r.saveField .startField)
    else if c = '\n' ∨ c = '\r' then .ok (r.saveField .eatCrnl)
    else r.addChar c .inField
  | .eatCrnl => if c = '\n' ∨ c = '\r' then .ok r else .error .newLineInUnquotedField

/-- `parse_process_char` at the end of a line. -/
def endLine : Reader :=
  match r.state with
  | .startRecord => r
  | .startField | .inField | .quoteInQuotedField => r.saveField .startRecord
  | .inQuotedField => r
  | .eatCrnl => { r with state := .startRecord }

/-- The characters of a line, and its end. -/
def feed (delimiter : Char) : Reader → List Char → Except CsvError Reader
  | r, [] => .ok r.endLine
  | r, c :: line => (r.process delimiter c).bind fun r => feed delimiter r line

end Reader

/-- The rows that were read, and the error that ended the reading. -/
structure Rows where
  rows : List (List (List Char))
  error : Option CsvError
  deriving DecidableEq

/-- One more row before the others. -/
def Rows.cons (row : List (List Char)) (read : Rows) : Rows := { read with rows := row :: read.rows }

/-- The rows of the lines, from a reader on. -/
def readLines (delimiter : Char) : Reader → List (List Char) → Rows
  | r, [] => ⟨if r.field ≠ [] ∨ r.state = .inQuotedField then [r.fields ++ [r.field]] else [], none⟩
  | r, line :: lines =>
    match r.feed delimiter line with
    | .error e => ⟨[], some e⟩
    | .ok r =>
      if r.state = .startRecord then (readLines delimiter .start lines).cons r.fields
      else readLines delimiter r lines

/-- The rows of a text, from a reader on. -/
def readText (delimiter : Char) (r : Reader) (text : List Char) : Rows :=
  readLines delimiter r (splitLines text)

/-! ### Rules -/

variable {delimiter : Char} {r s : Reader} {c : Char} {text : List Char}

theorem splitLines_cons (hc : c ≠ '\n' ∧ c ≠ '\r') (text : List Char) :
    splitLines (c :: text) =
      match splitLines text with
      | [] => [[c]]
      | line :: lines => (c :: line) :: lines := by
  rw [splitLines.eq_def]
  split
  · rename_i h
    cases h
  · rename_i h
    cases h
    exact absurd rfl hc.2
  · rename_i h
    cases h
    rw [if_neg (by simp [hc])]

/-- An end of a line that is not the first half of another one. -/
theorem splitLines_newline (hc : c = '\n' ∨ c = '\r') (htext : c = '\r' → text.head? ≠ some '\n') :
    splitLines (c :: text) = [c] :: splitLines text := by
  rw [splitLines.eq_def]
  split
  · rename_i h
    cases h
  · rename_i h
    cases h
    exact absurd rfl (htext rfl)
  · rename_i h
    cases h
    rw [if_pos hc]

theorem exists_splitLines (htext : text ≠ []) : ∃ line lines, splitLines text = line :: lines := by
  cases text with
  | nil => exact absurd rfl htext
  | cons c text =>
    rw [splitLines.eq_def]
    split
    · rename_i h
      cases h
    · exact ⟨_, _, rfl⟩
    · rename_i h
      cases h
      split
      · exact ⟨_, _, rfl⟩
      · split
        · exact ⟨_, _, rfl⟩
        · exact ⟨_, _, rfl⟩

/-- A character within a line is processed, and the reader goes on with the rest of the text. -/
theorem readText_cons (hc : c ≠ '\n' ∧ c ≠ '\r') (htext : text ≠ [])
    (hprocess : r.process delimiter c = .ok s) :
    readText delimiter r (c :: text) = readText delimiter s text := by
  obtain ⟨line, lines, hlines⟩ := exists_splitLines htext
  rw [readText, splitLines_cons hc, hlines, readText, hlines, readLines, Reader.feed, hprocess]
  rfl

/-- The end of a row. -/
theorem readText_newline (hprocess : r.process delimiter '\r' = .ok s) (hs : s.state = .eatCrnl) :
    readText delimiter r ('\r' :: '\n' :: text) =
      (readText delimiter .start text).cons s.fields := by
  obtain ⟨state, field, fields⟩ := s
  obtain rfl : state = .eatCrnl := hs
  rw [readText, splitLines, readLines, Reader.feed, hprocess]
  rfl

/-- Within a quoted field every character but the quote is a part of the field. -/
theorem readText_quoted {field : List Char} {fields : List (List Char)} (hc : c ≠ '"')
    (hlength : field.length < fieldSizeLimit) :
    readText delimiter ⟨.inQuotedField, field, fields⟩ (c :: text) =
      readText delimiter ⟨.inQuotedField, field ++ [c], fields⟩ text := by
  have hprocess : Reader.process ⟨.inQuotedField, field, fields⟩ delimiter c =
      .ok ⟨.inQuotedField, field ++ [c], fields⟩ := by
    rw [Reader.process]
    dsimp only
    rw [if_neg hc, Reader.addChar, if_neg (by simpa using hlength)]
  have hend : ∀ lines, readLines delimiter ⟨.inQuotedField, field, fields⟩ ([c] :: lines) =
      readLines delimiter ⟨.inQuotedField, field ++ [c], fields⟩ lines := by
    intro lines
    rw [readLines, Reader.feed, hprocess]
    rfl
  by_cases hnewline : c = '\n' ∨ c = '\r'
  · by_cases htext : c = '\r' ∧ text.head? = some '\n'
    · obtain ⟨rfl, hhead⟩ := htext
      obtain ⟨rest, rfl⟩ : ∃ rest, text = '\n' :: rest := by
        cases text with
        | nil => cases hhead
        | cons first rest => exact ⟨rest, by rw [Option.some.inj hhead]⟩
      rw [readText, splitLines, readLines, Reader.feed, hprocess, readText,
        splitLines_newline (.inl rfl) (by simp), readLines]
      rfl
    · rw [readText, splitLines_newline hnewline fun hr hhead => htext ⟨hr, hhead⟩, hend, readText]
  · rw [not_or] at hnewline
    cases text with
    | nil =>
      rw [readText, splitLines_cons hnewline]
      exact hend []
    | cons next text => exact readText_cons hnewline (by simp) hprocess

end AgoraEtl.CsvText
