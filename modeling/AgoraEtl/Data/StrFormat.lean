import Mathlib.Data.List.TakeWhile
import Mathlib.Tactic.Common

/-!
# Formatted texts

Python's `repr` of a text, and `format` of a text with a format specification: an alignment with its fill
character, a width and a precision.  A formatted text is a beginning of the text with fill characters
around it (`formatText_shape`).
-/

namespace StrFormat

/-! ### Decimal digits -/

/-- The zeros of the decimal digits of Unicode 14; the other nine come after each of them. -/
def decimalZeros : List ℕ :=
  [0x30, 0x660, 0x6f0, 0x7c0, 0x966, 0x9e6, 0xa66, 0xae6, 0xb66, 0xbe6, 0xc66, 0xce6, 0xd66, 0xde6,
    0xe50, 0xed0, 0xf20, 0x1040, 0x1090, 0x17e0, 0x1810, 0x1946, 0x19d0, 0x1a80, 0x1a90, 0x1b50, 0x1bb0,
    0x1c40, 0x1c50, 0xa620, 0xa8d0, 0xa900, 0xa9d0, 0xa9f0, 0xaa50, 0xabf0, 0xff10, 0x104a0, 0x10d30,
    0x11066, 0x110f0, 0x11136, 0x111d0, 0x112f0, 0x11450, 0x114d0, 0x11650, 0x116c0, 0x11730, 0x118e0,
    0x11950, 0x11c50, 0x11d50, 0x11da0, 0x16a60, 0x16ac0, 0x16b50, 0x1d7ce, 0x1d7d8, 0x1d7e2, 0x1d7ec,
    0x1d7f6, 0x1e140, 0x1e2f0, 0x1e950, 0x1fbf0]

/-- `unicodedata.decimal(c)`. -/
def decimal? (c : Char) : Option ℕ :=
  (decimalZeros.find? fun start => start ≤ c.toNat ∧ c.toNat < start + 10).map (c.toNat - ·)

/-- `c.isdecimal()`. -/
def isDecimal (c : Char) : Bool := (decimal? c).isSome

/-! ### `repr` -/

/-- The escape of a character by its number. -/
def hexEscape (c : Char) : List Char :=
  let digits := Nat.toDigits 16 c.toNat
  if c.toNat < 0x100 then '\\' :: 'x' :: digits.leftpad 2 '0'
  else if c.toNat < 0x10000 then '\\' :: 'u' :: digits.leftpad 4 '0'
  else '\\' :: 'U' :: digits.leftpad 8 '0'

/-- The quotes around a text. -/
def reprQuote (s : List Char) : Char := if '\'' ∈ s ∧ '"' ∉ s then '"' else '\''

/-- A character between quotes. -/
def reprChar (isprintable : Char → Bool) (quote c : Char) : List Char :=
  if c = quote ∨ c = '\\' then ['\\', c]
  else if c = '\t' then ['\\', 't']
  else if c = '\n' then ['\\', 'n']
  else if c = '\r' then ['\\', 'r']
  else if 0x20 ≤ c.toNat ∧ c.toNat < 0x7f then [c]
  else if 0x7f < c.toNat ∧ isprintable c then [c]
  else hexEscape c

/-- `repr(s)`; `ascii(s)` if no character outside of ASCII counts as printable. -/
def repr (isprintable : Char → Bool) (s : List Char) : List Char :=
  let quote := reprQuote s
  quote :: (s.flatMap (reprChar isprintable quote) ++ [quote])

/-- A text that begins with a brace has a quote before it. -/
theorem repr_brace (isprintable : Char → Bool) (s : List Char) :
    ∃ quote rest, (quote = '\'' ∨ quote = '"') ∧ repr isprintable ('{' :: s) = quote :: '{' :: rest := by
  have hquote : ∀ s, reprQuote s = '\'' ∨ reprQuote s = '"' := by
    intro s
    unfold reprQuote
    split
    · exact .inr rfl
    · exact .inl rfl
  refine ⟨reprQuote ('{' :: s), s.flatMap (reprChar isprintable (reprQuote ('{' :: s))) ++
    [reprQuote ('{' :: s)], hquote _, ?_⟩
  have hbrace : reprChar isprintable (reprQuote ('{' :: s)) '{' = ['{'] := by
    rcases hquote ('{' :: s) with h | h <;> rw [h] <;> rfl
  dsimp only [repr]
  rw [List.flatMap_cons, hbrace]
  rfl

/-! ### `format` -/

/-- What a format specification asks for. -/
structure FormatSpec where
  fill : Char
  align : Char
  width : ℕ
  precision : Option ℕ
  deriving DecidableEq

def isAlign (c : Char) : Bool := c = '<' || c = '>' || c = '=' || c = '^'

/-- `[[fill]align]`, and what comes after it. -/
def parseAlign : List Char → Option Char × Option Char × List Char
  | fill :: align :: rest =>
    if isAlign align then (some fill, some align, rest)
    else if isAlign fill then (none, some fill, align :: rest)
    else (none, none, fill :: align :: rest)
  | [align] => if isAlign align then (none, some align, []) else (none, none, [align])
  | [] => (none, none, [])

/-- `["0"]`, which is a fill character if there is no other. -/
def parseZero : Option Char → List Char → Char × List Char
  | some fill, rest => (fill, rest)
  | none, '0' :: rest => ('0', rest)
  | none, rest => (' ', rest)

/-- `digit*`, as a number. -/
def parseNumber (rest : List Char) : ℕ × List Char :=
  ((rest.takeWhile isDecimal).foldl (fun n c => 10 * n + (decimal? c).getD 0) 0,
    rest.dropWhile isDecimal)

/-- `["." digit+]`. -/
def parsePrecision : List Char → Option (Option ℕ × List Char)
  | '.' :: rest =>
    if rest.takeWhile isDecimal = [] then none
    else some (some (parseNumber rest).1, (parseNumber rest).2)
  | rest => some (none, rest)

/-- The format specifications of texts; signs, `#`, `z`, grouping, the alignment `=` and all types but
`s` are not allowed. -/
def parseSpec (spec : List Char) : Option FormatSpec :=
  let (fill, align, rest) := parseAlign spec
  let (fill, rest) := parseZero fill rest
  let (width, rest) := parseNumber rest
  match parsePrecision rest with
  | none => none
  | some (precision, rest) =>
    if align = some '=' then none
    else if rest = [] ∨ rest = ['s'] then some ⟨fill, align.getD '<', width, precision⟩
    else none

/-- A text with what a format specification asks for. -/
def FormatSpec.apply (spec : FormatSpec) (s : List Char) : List Char :=
  let text := s.take (spec.precision.getD s.length)
  let missing := spec.width - text.length
  let left :=
    if spec.align = '>' then missing else if spec.align = '^' then missing / 2 else 0
  List.replicate left spec.fill ++ (text ++ List.replicate (missing - left) spec.fill)

/-- `format(s, spec)`. -/
def formatText (s spec : List Char) : Option (List Char) := (parseSpec spec).map (·.apply s)

@[simp]
theorem formatText_nil (s : List Char) : formatText s [] = some s := by
  have hspec : parseSpec [] = some ⟨' ', '<', 0, none⟩ := by decide
  rw [formatText, hspec, Option.map_some, FormatSpec.apply]
  simp

/-- A formatted text is a beginning of the text with fill characters around it. -/
theorem formatText_shape {s spec r : List Char} (h : formatText s spec = some r) :
    ∃ fill left kept right,
      r = List.replicate left fill ++ (s.take kept ++ List.replicate right fill) := by
  obtain ⟨parsed, -, rfl⟩ := Option.map_eq_some_iff.mp h
  exact ⟨_, _, _, _, rfl⟩

end StrFormat
