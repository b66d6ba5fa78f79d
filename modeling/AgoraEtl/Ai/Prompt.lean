import AgoraEtl.Data.OrderedDict
import AgoraEtl.Data.StrFormat
import AgoraEtl.State.Backend

/-!
# Rendered prompts

`_SafeFormatter` overrides where a formatter looks its fields up: a field that the record lacks, and one
with attribute or index access, becomes a text of its name in braces.  The conversion and the format
specification of the field are then applied to that text.  So what is rendered depends on the plain names
alone (`renderPrompt_congr`), but such a field is kept as it is written exactly if it has neither, and
stands outside of the specifications of other fields.  And the fields of a record are passed on as keyword
arguments, which raises if one of its keys is no text.  `renderPrompt_safe_iff` says that nothing else
goes wrong.
-/

namespace AgoraEtl.Prompt

/-! ### Templates -/

/-- The name of a field, which is not the index of an argument.  Braces, colons and exclamation marks
are in it only after a bracket. -/
structure FieldName where
  text : Text
  named : text.all StrFormat.isDecimal = false
  plain : (text.takeWhile (· ≠ '[')).any (['{', '}', ':', '!'].contains ·) = false

/-- The conversions `!s`, `!r` and `!a`. -/
inductive Conversion where
  | str
  | repr
  | ascii
  deriving DecidableEq, Repr

/-- A replacement field; `S` are the format specifications. -/
structure Field (S : Type) where
  name : FieldName
  conversion : Option Conversion := none
  spec : Option S := none

/-- A part of a template. -/
inductive Piece (S : Type) where
  | literal (text : Text)
  | field (field : Field S)

/-- A format specification with fields, whose own specifications have none. -/
abbrev Spec : Type := List (Piece Text)

/-- A parsed template. -/
abbrev Template : Type := List (Piece Spec)

/-- The conversion as it is written. -/
def Conversion.written : Conversion → Text
  | .str => ['!', 's']
  | .repr => ['!', 'r']
  | .ascii => ['!', 'a']

/-- The field as it is written. -/
def Field.written {S : Type} (writtenSpec : S → Text) (field : Field S) : Text :=
  let conversion := field.conversion.elim [] Conversion.written
  let spec := field.spec.elim [] fun spec => ':' :: writtenSpec spec
  '{' :: (field.name.text ++ (conversion ++ (spec ++ ['}'])))

/-- The part of a specification as it is written. -/
def Piece.written : Piece Text → Text
  | .literal text => text
  | .field inner => inner.written id

/-- The field of a template as it is written. -/
def Field.source (field : Field Spec) : Text := field.written (·.flatMap Piece.written)

/-! ### The formatter -/

/-- What an object does when it is rendered; what raises has no result. -/
structure PyObject where
  str : Option Text
  repr : Option Text
  ascii : Option Text
  format : Text → Option Text

section Formatter

variable (isprintable : Char → Bool)

/-- A text as an object. -/
def PyObject.ofText (text : Text) : PyObject where
  str := some text
  repr := some (StrFormat.repr isprintable text)
  ascii := some (StrFormat.repr (fun _ => false) text)
  format := StrFormat.formatText text

/-- A key of a record: a text, or something else, by how it is shown. -/
inductive RecordKey where
  | text (name : Text)
  | other (repr : Text)
  deriving DecidableEq

def RecordKey.isText : RecordKey → Bool
  | .text _ => true
  | .other _ => false

/-- The fields of a record. -/
abbrev Data : Type := OrderedDict RecordKey PyObject

/-- `**data`: the fields as keyword arguments, unless a key is no text, which is a `TypeError`. -/
def keywords (data : Data) : Option Data := if data.keys.all RecordKey.isText then some data else none

/-- The text that stands for a field. -/
def placeholder (fieldName : Text) : Text := '{' :: (fieldName ++ ['}'])

/-- `get_value`, for a name. -/
def getValue (data : Data) (key : Text) : PyObject :=
  (data.get? (.text key)).getD (.ofText isprintable (placeholder key))

/-- `get_field`. -/
def getField (data : Data) (fieldName : Text) : PyObject :=
  if '.' ∈ fieldName ∨ '[' ∈ fieldName then .ofText isprintable (placeholder fieldName)
  else getValue isprintable data fieldName

/-- `convert_field`. -/
def convertField (obj : PyObject) : Option Conversion → Option PyObject
  | none => some obj
  | some .str => obj.str.map (.ofText isprintable)
  | some .repr => obj.repr.map (.ofText isprintable)
  | some .ascii => obj.ascii.map (.ofText isprintable)

variable {S : Type}

/-- A literal text, or a field that is looked up, converted and formatted. -/
def formatPiece (data : Data) (formatSpec : S → Option Text) : Piece S → Option Text
  | .literal text => some text
  | .field field => do
    let obj ← convertField isprintable (getField isprintable data field.name.text) field.conversion
    let spec ← field.spec.elim (some []) formatSpec
    obj.format spec

/-- `_vformat`, with what it is on the next level. -/
def vformat (data : Data) (formatSpec : S → Option Text) (pieces : List (Piece S)) : Option Text :=
  (pieces.mapM (formatPiece isprintable data formatSpec)).map List.flatten

/-- The format specification of a field. -/
def formatSpec (data : Data) (spec : Spec) : Option Text := vformat isprintable data some spec

/-- A record, by how its fields are read; other records have their text alone. -/
inductive Record where
  | dict (data : Data)
  | modelDump (data : Data)
  | attributes (data : Data)
  | other (text : Text)

/-- What is passed on to the formatter. -/
def Record.data : Record → Data
  | .dict data | .modelDump data | .attributes data => data
  | .other text => .ofEntries [(.text "record".toList, .ofText isprintable text)]

/-- What rendering a prompt raises: that a key is no keyword, or what looking up, converting and
formatting a field raises. -/
inductive RenderError where
  | keywords
  | field
  deriving DecidableEq

/-- A part of a rendered prompt. -/
def renderPiece (record : Record) (piece : Piece Spec) : Option Text := do
  let data ← keywords (record.data isprintable)
  formatPiece isprintable data (formatSpec isprintable data) piece

/-- `render_prompt`. -/
def renderPrompt (template : Template) (record : Record) : Except RenderError Text :=
  match keywords (record.data isprintable) with
  | none => .error .keywords
  | some data =>
    match vformat isprintable data (formatSpec isprintable data) template with
    | none => .error .field
    | some text => .ok text

end Formatter

/-! ### Which fields are looked up -/

/-- The names of the fields of a template, also of those in format specifications. -/
def names (template : Template) : List Text :=
  template.flatMap fun
    | .literal _ => []
    | .field field => field.name.text :: (field.spec.getD []).flatMap fun
      | .literal _ => []
      | .field inner => [inner.name.text]

/-- A name without attribute or index access. -/
def PlainName (name : Text) : Prop := '.' ∉ name ∧ '[' ∉ name

/-- The record has nothing for a name, or the access is blocked. -/
def Lacks (data : Data) (name : Text) : Prop := PlainName name → data.get? (.text name) = none

/-- All keys of the record are texts. -/
def TextKeys (data : Data) : Prop := ∀ key ∈ data.keys, key.isText = true

section Rendering

variable {isprintable : Char → Bool} {data data' : Data}

/-- A dictionary with texts for keys can be passed by keyword. -/
theorem keywords_of_textKeys (h : TextKeys data) : keywords data = some data :=
  if_pos (List.all_eq_true.mpr h)

/-- One with another key cannot. -/
theorem keywords_eq_none_iff : keywords data = none ↔ ¬ TextKeys data := by
  unfold keywords
  by_cases h : TextKeys data
  · rw [if_pos (List.all_eq_true.mpr h)]
    exact iff_of_false nofun (not_not.mpr h)
  · rw [if_neg fun hall => h (List.all_eq_true.mp hall)]
    exact iff_of_true rfl h

/-- A field depends on what is under its name only. -/
theorem getField_congr {name : Text}
    (h : PlainName name → data.get? (.text name) = data'.get? (.text name)) :
    getField isprintable data name = getField isprintable data' name := by
  unfold getField getValue
  by_cases hname : '.' ∈ name ∨ '[' ∈ name
  · rw [if_pos hname, if_pos hname]
  · rw [if_neg hname, if_neg hname, h (not_or.mp hname)]

/-- A field that the record lacks is its placeholder. -/
theorem getField_of_lacks {name : Text} (h : Lacks data name) :
    getField isprintable data name = .ofText isprintable (placeholder name) := by
  unfold getField getValue
  by_cases hname : '.' ∈ name ∨ '[' ∈ name
  · exact if_pos hname
  · rw [if_neg hname, h (not_or.mp hname), Option.getD_none]

/-- A field whose name is not lacking is found. -/
theorem getField_of_not_lacks (isprintable : Char → Bool) {name : Text} (h : ¬ Lacks data name) :
    ∃ obj, data.get? (.text name) = some obj ∧ getField isprintable data name = obj := by
  obtain ⟨hplain, hfound⟩ := not_forall.mp h
  obtain ⟨obj, hobj⟩ := Option.ne_none_iff_exists'.mp hfound
  refine ⟨obj, hobj, ?_⟩
  unfold getField getValue
  rw [if_neg (not_or.mpr hplain), hobj, Option.getD_some]

/-- A piece depends on what is under the names of its fields only. -/
theorem formatPiece_congr {S : Type} {piece : Piece S} {specs specs' : S → Option Text}
    (hname : ∀ field, piece = .field field → PlainName field.name.text →
      data.get? (.text field.name.text) = data'.get? (.text field.name.text))
    (hspec : ∀ field spec, piece = .field field → field.spec = some spec → specs spec = specs' spec) :
    formatPiece isprintable data specs piece = formatPiece isprintable data' specs' piece := by
  cases piece with
  | literal text => rfl
  | field field =>
    have hspecs : field.spec.elim (some []) specs = field.spec.elim (some []) specs' := by
      cases hcase : field.spec with
      | none => rfl
      | some spec => exact hspec field spec rfl hcase
    dsimp only [formatPiece]
    rw [getField_congr (hname field rfl), hspecs]

/-- A template is formatted piece by piece. -/
theorem vformat_congr {S : Type} {pieces : List (Piece S)} {specs specs' : S → Option Text}
    (h : ∀ piece ∈ pieces, formatPiece isprintable data specs piece =
      formatPiece isprintable data' specs' piece) :
    vformat isprintable data specs pieces = vformat isprintable data' specs' pieces := by
  unfold vformat
  congr 1
  induction pieces with
  | nil => rfl
  | cons piece pieces ih =>
    rw [List.mapM_cons, List.mapM_cons, h piece List.mem_cons_self,
      ih fun other hmem => h other (List.mem_cons_of_mem piece hmem)]

/-- The name of a field is one of the template. -/
theorem mem_names {template : Template} {field : Field Spec} (h : .field field ∈ template) :
    field.name.text ∈ names template :=
  List.mem_flatMap.mpr ⟨.field field, h, List.mem_cons_self⟩

/-- So is that of a field inside a specification. -/
theorem mem_names_inner {template : Template} {field : Field Spec} (h : .field field ∈ template)
    {spec : Spec} (hspec : field.spec = some spec) {inner : Field Text} (hinner : .field inner ∈ spec) :
    inner.name.text ∈ names template := by
  refine List.mem_flatMap.mpr ⟨.field field, h, List.mem_cons_of_mem _ ?_⟩
  rw [hspec]
  exact List.mem_flatMap.mpr ⟨.field inner, hinner, List.mem_singleton_self _⟩

/-- Two records agree on the plain names of a template. -/
def Agree (isprintable : Char → Bool) (template : Template) (record record' : Record) : Prop :=
  ∀ name ∈ names template, PlainName name →
    (record.data isprintable).get? (.text name) = (record'.data isprintable).get? (.text name)

/-- If all keys are texts, what is rendered depends on the fields with plain names. -/
theorem renderPrompt_congr {template : Template} {record record' : Record}
    (htexts : TextKeys (record.data isprintable)) (htexts' : TextKeys (record'.data isprintable))
    (h : Agree isprintable template record record') :
    renderPrompt isprintable template record = renderPrompt isprintable template record' := by
  unfold renderPrompt
  rw [keywords_of_textKeys htexts, keywords_of_textKeys htexts']
  dsimp only
  have hsame : vformat isprintable (record.data isprintable)
      (formatSpec isprintable (record.data isprintable)) template =
        vformat isprintable (record'.data isprintable)
          (formatSpec isprintable (record'.data isprintable)) template := by
    refine vformat_congr fun piece hpiece => formatPiece_congr ?_ ?_
    · rintro field rfl
      exact h field.name.text (mem_names hpiece)
    · rintro field spec rfl hspec
      refine vformat_congr fun part hpart => formatPiece_congr ?_ fun _ _ _ _ => rfl
      rintro inner rfl
      exact h inner.name.text (mem_names_inner hpiece hspec hpart)
  rw [hsame]

/-! ### Fields that the record lacks -/

/-- Two records have the same keys. -/
def SameNames (isprintable : Char → Bool) (record record' : Record) : Prop :=
  ∀ key, (record.data isprintable).get? key = none ↔ (record'.data isprintable).get? key = none

/-- If the keys of the one are texts, so are those of the other. -/
theorem SameNames.textKeys {record record' : Record} (h : SameNames isprintable record record')
    (htexts : TextKeys (record.data isprintable)) : TextKeys (record'.data isprintable) := by
  intro key hkey
  refine htexts key ?_
  by_contra hmissing
  exact OrderedDict.get?_eq_none_iff.mp ((h key).mp (OrderedDict.get?_eq_none_iff.mpr hmissing)) hkey

/-- Records with the same names lack the same ones. -/
theorem SameNames.lacks_iff {record record' : Record} (h : SameNames isprintable record record')
    (name : Text) : Lacks (record.data isprintable) name ↔ Lacks (record'.data isprintable) name :=
  forall_congr' fun _ => h (.text name)

/-- What prompts promise: what is rendered depends on the plain names of the template; and for every
record of these names, a field that the record lacks is kept as it is written, also in the format
specification of another field, unless that one cannot be formatted at all. -/
structure RendersSafely (isprintable : Char → Bool) (template : Template) (record : Record) : Prop where
  congr : ∀ record', TextKeys (record'.data isprintable) → Agree isprintable template record record' →
    renderPrompt isprintable template record = renderPrompt isprintable template record'
  verbatim : ∀ record', SameNames isprintable record record' → ∀ field, .field field ∈ template →
    Lacks (record'.data isprintable) field.name.text →
      renderPiece isprintable record' (.field field) = some field.source
  inner : ∀ record', SameNames isprintable record record' → ∀ field, .field field ∈ template →
    ¬ Lacks (record'.data isprintable) field.name.text →
      (∃ obj, convertField isprintable (getField isprintable (record'.data isprintable) field.name.text)
        field.conversion = some obj ∧ ∃ spec, obj.format spec ≠ none) →
      ∀ spec, field.spec = some spec → ∀ inner, .field inner ∈ spec →
        Lacks (record'.data isprintable) inner.name.text →
          ∃ out, renderPiece isprintable record' (.field field) = some out ∧ inner.written id <:+: out

/-- All keys are texts; and the fields that the record lacks have neither a conversion nor a format
specification, and are in no format specification. -/
structure Keeps (isprintable : Char → Bool) (template : Template) (record : Record) : Prop where
  texts : TextKeys (record.data isprintable)
  lacking : ∀ field, .field field ∈ template → Lacks (record.data isprintable) field.name.text →
    field.conversion = none ∧ field.spec = none
  inner : ∀ field, .field field ∈ template → ∀ spec, field.spec = some spec →
    ∀ inner, .field inner ∈ spec → ¬ Lacks (record.data isprintable) inner.name.text

/-- If all keys are texts, a part is rendered from the fields as they are. -/
theorem renderPiece_of_textKeys {record : Record} (htexts : TextKeys (record.data isprintable))
    (piece : Piece Spec) : renderPiece isprintable record piece =
      formatPiece isprintable (record.data isprintable)
        (formatSpec isprintable (record.data isprintable)) piece := by
  rw [renderPiece, keywords_of_textKeys htexts]
  rfl

/-- A field without a conversion and a format specification is kept. -/
theorem renderPiece_of_lacks {record : Record} (htexts : TextKeys (record.data isprintable))
    {field : Field Spec} (hlacks : Lacks (record.data isprintable) field.name.text)
    (hconversion : field.conversion = none)
    (hspec : field.spec = none) : renderPiece isprintable record (.field field) = some field.source := by
  rw [renderPiece_of_textKeys htexts]
  dsimp only [formatPiece]
  rw [getField_of_lacks hlacks, hconversion, hspec]
  unfold Field.source Field.written
  rw [hconversion, hspec]
  exact StrFormat.formatText_nil _

/-- Where the condition holds the prompt is rendered safely. -/
theorem Keeps.rendersSafely {template : Template} {record : Record}
    (h : Keeps isprintable template record) : RendersSafely isprintable template record where
  congr _ htexts hagree := renderPrompt_congr h.texts htexts hagree
  verbatim record' hsame field hfield hlacks := by
    obtain ⟨hconversion, hspec⟩ := h.lacking field hfield ((hsame.lacks_iff _).mpr hlacks)
    exact renderPiece_of_lacks (hsame.textKeys h.texts) hlacks hconversion hspec
  inner record' hsame field hfield _ _ spec hspec inner hinner hlacks :=
    absurd ((hsame.lacks_iff _).mpr hlacks) (h.inner field hfield spec hspec inner hinner)

/-! ### Fields with a conversion or a format specification -/

/-- The conversion of a text is the text or a representation of it. -/
theorem convertField_ofText (isprintable : Char → Bool) (text : Text) (conversion : Option Conversion) :
    ∃ s, convertField isprintable (.ofText isprintable text) conversion =
        some (.ofText isprintable s) ∧ (s = text ∨ ∃ p, s = StrFormat.repr p text) := by
  match conversion with
  | none | some .str => exact ⟨text, rfl, .inl rfl⟩
  | some .repr => exact ⟨StrFormat.repr isprintable text, rfl, .inr ⟨_, rfl⟩⟩
  | some .ascii => exact ⟨StrFormat.repr (fun _ => false) text, rfl, .inr ⟨_, rfl⟩⟩

/-- After the name comes the mark of the conversion or of the format specification. -/
theorem source_eq {field : Field Spec} (h : ¬ (field.conversion = none ∧ field.spec = none)) :
    ∃ mark rest, (mark = '!' ∨ mark = ':') ∧
      field.source = '{' :: (field.name.text ++ mark :: (rest ++ ['}'])) := by
  unfold Field.source Field.written
  rcases hconversion : field.conversion with _ | conversion
  · rcases hspec : field.spec with _ | spec
    · exact absurd ⟨hconversion, hspec⟩ h
    · exact ⟨':', _, .inr rfl, rfl⟩
  · cases conversion with
    | str => exact ⟨'!', 's' :: _, .inl rfl, by simp only [Conversion.written, Option.elim_some]; rfl⟩
    | repr => exact ⟨'!', 'r' :: _, .inl rfl, by simp only [Conversion.written, Option.elim_some]; rfl⟩
    | ascii => exact ⟨'!', 'a' :: _, .inl rfl, by simp only [Conversion.written, Option.elim_some]; rfl⟩

/-- A name does not begin with a brace. -/
theorem FieldName.head_ne (name : FieldName) {mark x : Char} {rest tail : Text} (hmark : mark ≠ '{')
    (h : name.text ++ mark :: rest = x :: tail) : x ≠ '{' := by
  rcases hname : name.text with _ | ⟨first, others⟩
  · rw [hname, List.nil_append] at h
    exact (List.cons.inj h).1 ▸ hmark
  · rw [hname, List.cons_append] at h
    obtain ⟨rfl, -⟩ := List.cons.inj h
    rintro rfl
    have hbrace : '{' ∈ name.text.takeWhile (· ≠ '[') := by
      rw [hname, List.takeWhile_cons_of_pos (by decide)]
      exact List.mem_cons_self
    exact List.any_eq_false.mp name.plain '{' hbrace (by decide)

/-- A name that begins with a quote goes on without a brace. -/
theorem FieldName.second_ne (name : FieldName) {mark x quote : Char} {rest tail others : Text}
    (hname : name.text = quote :: others) (hquote : quote ≠ '[') (hmark : mark ≠ '{')
    (h : others ++ mark :: rest = x :: tail) : x ≠ '{' := by
  cases others with
  | nil => exact (List.cons.inj h).1 ▸ hmark
  | cons second others =>
    obtain ⟨rfl, -⟩ := List.cons.inj h
    rintro rfl
    have hbrace : '{' ∈ name.text.takeWhile (· ≠ '[') := by
      rw [hname, List.takeWhile_cons_of_pos (by simpa using hquote),
        List.takeWhile_cons_of_pos (by decide)]
      exact List.mem_cons_of_mem _ List.mem_cons_self
    exact List.any_eq_false.mp name.plain '{' hbrace (by decide)

/-- What begins with a brace begins so within braces. -/
theorem eq_brace (left kept right : ℕ) (s : Text) {tail : Text} {x : Char}
    (h : List.replicate left '{' ++ (('{' :: s).take kept ++ List.replicate right '{') = x :: tail) :
    x = '{' := by
  cases left with
  | succ left => exact (List.cons.inj h).1.symm
  | zero =>
    cases kept with
    | succ kept => exact (List.cons.inj h).1.symm
    | zero =>
      cases right with
      | succ right => exact (List.cons.inj h).1.symm
      | zero => exact absurd h nofun

/-- A formatted placeholder is not the field as it is written. -/
theorem placeholder_ne (name : FieldName) {mark fill : Char} {rest : Text} {left kept right : ℕ}
    (hmark : mark = '!' ∨ mark = ':') :
    List.replicate left fill ++ ((placeholder name.text).take kept ++ List.replicate right fill) ≠
      '{' :: (name.text ++ mark :: (rest ++ ['}'])) := by
  have hopen : mark ≠ '{' := by rintro rfl; simp at hmark
  have hclose : mark ≠ '}' := by rintro rfl; simp at hmark
  intro h
  cases left with
  | succ left =>
    obtain ⟨rfl, htail⟩ := List.cons.inj h
    obtain ⟨x, tail, hx⟩ := List.exists_cons_of_ne_nil
      (l := name.text ++ mark :: (rest ++ ['}'])) (by simp)
    exact name.head_ne hopen hx (eq_brace left kept right _ (htail.trans hx))
  | zero =>
    rw [List.replicate_zero, List.nil_append] at h
    by_cases hkept : kept ≤ name.text.length + 1
    · -- From the mark on, all characters are the fill character.
      have hfill : ∀ x ∈ mark :: (rest ++ ['}']), x = fill := by
        intro x hx
        have hdrop := congrArg (List.drop (name.text.length + 1)) h
        rw [List.drop_succ_cons, List.drop_left] at hdrop
        rw [← hdrop, List.drop_append, List.drop_eq_nil_of_le (by simp; omega), List.nil_append] at hx
        exact List.eq_of_mem_replicate (List.mem_of_mem_drop hx)
      exact hclose ((hfill mark List.mem_cons_self).trans (hfill '}' (by simp)).symm)
    · rw [List.take_of_length_le (by simp [placeholder]; omega)] at h
      have hrest : name.text ++ ('}' :: List.replicate right fill) =
          name.text ++ mark :: (rest ++ ['}']) := by
        simpa [placeholder] using h
      exact hclose (List.cons.inj (List.append_cancel_left hrest)).1.symm

/-- A formatted placeholder in quotes is not the field as it is written. -/
theorem quoted_ne (name : FieldName) {quote mark fill : Char} {s rest : Text} {left kept right : ℕ}
    (hquote : quote = '\'' ∨ quote = '"') (hmark : mark = '!' ∨ mark = ':') :
    List.replicate left fill ++ ((quote :: '{' :: s).take kept ++ List.replicate right fill) ≠
      '{' :: (name.text ++ mark :: (rest ++ ['}'])) := by
  have hopen : mark ≠ '{' := by rintro rfl; simp at hmark
  have hdistinct : quote ≠ '{' ∧ quote ≠ '[' ∧ quote ≠ mark := by
    rcases hquote with rfl | rfl <;> rcases hmark with rfl | rfl <;> decide
  obtain ⟨hbrace, hbracket, hother⟩ := hdistinct
  obtain ⟨x, tail, hx⟩ := List.exists_cons_of_ne_nil
    (l := name.text ++ mark :: (rest ++ ['}'])) (by simp)
  intro h
  rcases left with _ | _ | left
  · cases kept with
    | zero =>
      have hfill : ∀ c ∈ '{' :: (name.text ++ mark :: (rest ++ ['}'])), c = fill :=
        fun c hc => List.eq_of_mem_replicate (h ▸ hc)
      exact absurd ((hfill '{' (by simp)).trans (hfill '}' (by simp)).symm) (by decide)
    | succ kept => exact hbrace (List.cons.inj h).1
  · obtain ⟨rfl, htail⟩ := List.cons.inj h
    cases kept with
    | zero => exact name.head_ne hopen hx (eq_brace 0 0 right s (htail.trans hx))
    | succ kept =>
      rcases hname : name.text with _ | ⟨first, others⟩
      · rw [hname] at htail
        exact hother (List.cons.inj htail).1
      · rw [hname] at htail
        obtain ⟨rfl, hothers⟩ := List.cons.inj htail
        obtain ⟨y, tail', hy⟩ := List.exists_cons_of_ne_nil
          (l := others ++ mark :: (rest ++ ['}'])) (by simp)
        exact name.second_ne hname hbracket hopen hy (eq_brace 0 kept right s (hothers.trans hy))
  · obtain ⟨rfl, htail⟩ := List.cons.inj h
    refine name.head_ne hopen hx ?_
    exact (List.cons.inj (htail.trans hx)).1.symm

/-- A field that the record lacks is not kept with a conversion or a format specification. -/
theorem plain_of_renderPiece {record : Record} (htexts : TextKeys (record.data isprintable))
    {field : Field Spec} (hlacks : Lacks (record.data isprintable) field.name.text)
    (hkept : renderPiece isprintable record (.field field) = some field.source) :
    field.conversion = none ∧ field.spec = none := by
  by_contra hdecorated
  obtain ⟨mark, rest, hmark, hsource⟩ := source_eq hdecorated
  obtain ⟨s, hconvert, hs⟩ := convertField_ofText isprintable (placeholder field.name.text)
    field.conversion
  rw [renderPiece_of_textKeys htexts] at hkept
  dsimp only [formatPiece] at hkept
  rw [getField_of_lacks hlacks, hconvert, Option.bind_eq_bind, Option.bind_some] at hkept
  obtain ⟨spec, -, hformat⟩ := Option.bind_eq_some_iff.mp hkept
  obtain ⟨fill, left, kept, right, hshape⟩ := StrFormat.formatText_shape hformat
  rw [hsource] at hshape
  rcases hs with rfl | ⟨p, rfl⟩
  · exact placeholder_ne field.name hmark hshape.symm
  · obtain ⟨quote, others, hquote, hrepr⟩ := StrFormat.repr_brace p (field.name.text ++ ['}'])
    rw [placeholder, hrepr] at hshape
    exact quoted_ne field.name hquote hmark hshape.symm

/-- The record with an empty text for every name. -/
def emptied (isprintable : Char → Bool) (record : Record) : Record :=
  .dict ((record.data isprintable).mapWithKey fun _ _ => .ofText isprintable [])

/-- The emptied record has empty texts under the same keys. -/
theorem get?_emptied (record : Record) (key : RecordKey) :
    ((emptied isprintable record).data isprintable).get? key =
      ((record.data isprintable).get? key).map fun _ => .ofText isprintable [] :=
  OrderedDict.get?_mapWithKey _ _ key

/-- It has the same names. -/
theorem sameNames_emptied (isprintable : Char → Bool) (record : Record) :
    SameNames isprintable record (emptied isprintable record) := fun key => by
  rw [get?_emptied, Option.map_eq_none_iff]

/-- The record without the keys that are no texts. -/
def textsOf (isprintable : Char → Bool) (record : Record) : Record :=
  .dict ((record.data isprintable).filterKeys RecordKey.isText)

/-- The texts of a record have texts for keys. -/
theorem textKeys_textsOf (record : Record) : TextKeys ((textsOf isprintable record).data isprintable) := by
  intro key hkey
  by_contra hother
  have hgone := OrderedDict.get?_filterKeys (record.data isprintable) RecordKey.isText key
  rw [if_neg hother] at hgone
  exact OrderedDict.get?_eq_none_iff.mp hgone hkey

/-- They agree with the record where the template looks. -/
theorem agree_textsOf (template : Template) (record : Record) :
    Agree isprintable template record (textsOf isprintable record) := fun name _ _ =>
  (OrderedDict.get?_filterKeys (record.data isprintable) RecordKey.isText (.text name)).symm

/-- A record with another key raises where its texts alone do not. -/
theorem RendersSafely.textKeys {template : Template} {record : Record}
    (h : RendersSafely isprintable template record) : TextKeys (record.data isprintable) := by
  by_contra hother
  have hsame := h.congr _ (textKeys_textsOf record) (agree_textsOf template record)
  unfold renderPrompt at hsame
  rw [keywords_eq_none_iff.mpr hother, keywords_of_textKeys (textKeys_textsOf record)] at hsame
  dsimp only at hsame
  split at hsame
  · exact absurd (Except.error.inj hsame) nofun
  · exact absurd hsame nofun

/-- With an empty text in it, a field has no room for another one. -/
theorem not_part_of_emptied {s spec out : Text} (hs : s = [] ∨ ∃ p, s = StrFormat.repr p [])
    (hformat : StrFormat.formatText s spec = some out) (inner : Field Text) :
    ¬ inner.written id <:+: out := by
  intro hpart
  obtain ⟨fill, left, kept, right, rfl⟩ := StrFormat.formatText_shape hformat
  have hchars : ∀ c ∈ s, c = '\'' := by
    rcases hs with rfl | ⟨p, rfl⟩
    · exact fun c hc => absurd hc List.not_mem_nil
    · exact fun c hc => by simpa [StrFormat.repr, StrFormat.reprQuote] using hc
  have hfill : ∀ c ∈ inner.written id, c ≠ '\'' → c = fill := by
    intro c hc hne
    rcases List.mem_append.mp (hpart.subset hc) with hleft | hrest
    · exact List.eq_of_mem_replicate hleft
    · rcases List.mem_append.mp hrest with hkept | hright
      · exact absurd (hchars c (List.mem_of_mem_take hkept)) hne
      · exact List.eq_of_mem_replicate hright
  have hopen := hfill '{' List.mem_cons_self (by decide)
  have hclose := hfill '}' (by simp [Field.written]) (by decide)
  exact absurd (hopen.trans hclose.symm) (by decide)

/-- Where a prompt is rendered safely the condition holds. -/
theorem RendersSafely.keeps {template : Template} {record : Record}
    (h : RendersSafely isprintable template record) : Keeps isprintable template record := by
  have hsame : SameNames isprintable record record := fun _ => Iff.rfl
  have hplain : ∀ field, .field field ∈ template →
      Lacks (record.data isprintable) field.name.text → field.conversion = none ∧ field.spec = none :=
    fun field hfield hlacks =>
      plain_of_renderPiece h.textKeys hlacks (h.verbatim record hsame field hfield hlacks)
  refine ⟨h.textKeys, hplain, fun field hfield spec hspec inner hinner hlacks => ?_⟩
  by_cases houter : Lacks (record.data isprintable) field.name.text
  · rw [(hplain field hfield houter).2] at hspec
    exact absurd hspec nofun
  · have hsame' := sameNames_emptied isprintable record
    have houter' := mt (hsame'.lacks_iff _).mpr houter
    obtain ⟨obj, hobj, hfound⟩ := getField_of_not_lacks isprintable houter'
    obtain ⟨-, -, hempty⟩ := Option.map_eq_some_iff.mp ((get?_emptied record _).symm.trans hobj)
    obtain ⟨s, hconvert, hs⟩ := convertField_ofText isprintable [] field.conversion
    rw [hempty.symm] at hfound
    rw [← hfound] at hconvert
    obtain ⟨out, hrender, hpart⟩ := h.inner _ hsame' field hfield houter'
      ⟨_, hconvert, [], by simp [PyObject.ofText]⟩ spec hspec inner hinner
      ((hsame'.lacks_iff _).mp hlacks)
    rw [renderPiece_of_textKeys (hsame'.textKeys h.textKeys)] at hrender
    dsimp only [formatPiece] at hrender
    rw [hconvert, Option.bind_eq_bind, Option.bind_some] at hrender
    obtain ⟨text, -, hformat⟩ := Option.bind_eq_some_iff.mp hrender
    exact not_part_of_emptied hs hformat inner hpart

end Rendering

/-! ### A missing field with a conversion or a format specification -/

def ctxName : FieldName := ⟨"ctx".toList, by decide, by decide⟩

def textName : FieldName := ⟨"text".toList, by decide, by decide⟩

/-- `{ctx!r}`. -/
def reprOfCtx : Field Spec := { name := ctxName, conversion := some .repr }

/-- `{ctx:.2f}`. -/
def roundedCtx : Field Spec := { name := ctxName, spec := some [.literal ".2f".toList] }

/-- `{text:{ctx}}`. -/
def textWithCtx : Field Spec := { name := textName, spec := some [.field { name := ctxName }] }

/-- A record with a text alone. -/
def onlyText : Record := .dict (.ofEntries [(.text "text".toList, .ofText (fun _ => true) "hi".toList)])

/-- A record with a value that has no name, as a row that is longer than the header. -/
def longRow : Record := .dict (.ofEntries [(.text "text".toList, .ofText (fun _ => true) "hi".toList),
  (.other "None".toList, .ofText (fun _ => true) "['more']".toList)])

/-- It is not rendered at all, although it agrees with the record of its texts. -/
example : renderPrompt (fun _ => true) [.field { name := textName }] longRow = .error .keywords ∧
    renderPrompt (fun _ => true) [.field { name := textName }] onlyText = .ok "hi".toList := by
  refine ⟨?_, ?_⟩ <;> with_unfolding_all rfl

end AgoraEtl.Prompt
