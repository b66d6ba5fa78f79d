import Mathlib.Data.List.Lex
import Mathlib.Tactic.Common

/-!
# JSON texts of pairs of strings

`json.dumps` of a list of pairs of strings, with the separators of the compact form.  A reader takes
one character of a string off a text, so that the text of a list determines it (`jsonPairs_injective`).

A scanner that counts the quotes of a text, apart from escaped ones, tells whether a place is inside of
a string.  A character without a meaning for the syntax occurs only there (`inside_of_jsonPairs`), so no
text of pairs ends with another one that comes after such a character (`jsonPairs_ne_append`).
-/

namespace JsonText

/-- A character of a string, as `json.dumps` writes it without `ensure_ascii`. -/
def escapeChar : Char → List Char
  | '\\' => ['\\', '\\']
  | '"' => ['\\', '"']
  | '\x08' => ['\\', 'b']
  | '\x0c' => ['\\', 'f']
  | '\n' => ['\\', 'n']
  | '\r' => ['\\', 'r']
  | '\t' => ['\\', 't']
  | c =>
    if c.toNat < 0x20 then
      ['\\', 'u', '0', '0', Nat.digitChar (c.toNat / 16), Nat.digitChar (c.toNat % 16)]
    else [c]

def jsonString (s : List Char) : List Char := '"' :: s.flatMap escapeChar ++ ['"']

def jsonPair (p : List Char × List Char) : List Char :=
  '[' :: jsonString p.1 ++ ',' :: jsonString p.2 ++ [']']

/-- `json.dumps` of a list of pairs. -/
def jsonPairs (pairs : List (List Char × List Char)) : List Char :=
  '[' :: [','].intercalate (pairs.map jsonPair) ++ [']']

/-! ### Reading -/

/-- The value of a hexadecimal digit. -/
def digitValue (c : Char) : ℕ := if c.toNat < 0x61 then c.toNat - 0x30 else c.toNat - 0x57

/-- What an escaped character stands for. -/
def unescaped : Char → Char
  | 'b' => '\x08'
  | 'f' => '\x0c'
  | 'n' => '\n'
  | 'r' => '\r'
  | 't' => '\t'
  | c => c

/-- The first character of a string and the text after it. -/
def readChar : List Char → Option (Char × List Char)
  | '\\' :: 'u' :: _ :: _ :: hi :: lo :: rest =>
    some (Char.ofNat (16 * digitValue hi + digitValue lo), rest)
  | '\\' :: c :: rest => some (unescaped c, rest)
  | c :: rest => some (c, rest)
  | [] => none

/-- A hexadecimal digit is read as what it was written for. -/
theorem digitValue_digitChar : ∀ n < 16, digitValue (Nat.digitChar n) = n := by decide

/-- It is neither a backslash nor a quotation mark. -/
theorem digitChar_plain :
    ∀ n < 16, Nat.digitChar n ≠ '\\' ∧ Nat.digitChar n ≠ '"' := by decide

/-- The characters that are written with a letter of their own after the backslash, and the others. -/
theorem escapeChar_cases (c : Char) :
    (∃ d, d ≠ 'u' ∧ unescaped d = c ∧ escapeChar c = ['\\', d]) ∨
      (c.toNat < 0x20 ∧ escapeChar c =
        ['\\', 'u', '0', '0', Nat.digitChar (c.toNat / 16), Nat.digitChar (c.toNat % 16)]) ∨
      (c ≠ '\\' ∧ c ≠ '"' ∧ escapeChar c = [c]) := by
  unfold escapeChar
  split
  case h_1 => exact .inl ⟨'\\', by decide, by decide, rfl⟩
  case h_2 => exact .inl ⟨'"', by decide, by decide, rfl⟩
  case h_3 => exact .inl ⟨'b', by decide, by decide, rfl⟩
  case h_4 => exact .inl ⟨'f', by decide, by decide, rfl⟩
  case h_5 => exact .inl ⟨'n', by decide, by decide, rfl⟩
  case h_6 => exact .inl ⟨'r', by decide, by decide, rfl⟩
  case h_7 => exact .inl ⟨'t', by decide, by decide, rfl⟩
  case h_8 hback hquote _ _ _ _ _ =>
    split
    next hcontrol => exact .inr (.inl ⟨hcontrol, rfl⟩)
    next => exact .inr (.inr ⟨hback, hquote, rfl⟩)

/-- What is escaped for a character is read as that character. -/
theorem readChar_escapeChar (c : Char) (rest : List Char) :
    readChar (escapeChar c ++ rest) = some (c, rest) := by
  rcases escapeChar_cases c with ⟨d, hne, hvalue, hc⟩ | ⟨hlt, hc⟩ | ⟨hback, hquote, hc⟩
  · rw [hc, List.cons_append, List.cons_append, List.nil_append, readChar, hvalue]
    exact fun _ _ _ _ _ h _ => hne h
  · have hhi := digitValue_digitChar (c.toNat / 16) (by omega)
    have hlo := digitValue_digitChar (c.toNat % 16) (by omega)
    have hvalue : 16 * (c.toNat / 16) + c.toNat % 16 = c.toNat := by omega
    rw [hc]
    simp only [List.cons_append, List.nil_append, readChar, hhi, hlo, hvalue, Char.ofNat_toNat]
  · rw [hc, List.singleton_append, readChar]
    · exact fun _ _ _ _ _ h _ => hback h
    · exact fun _ _ h _ => hback h

/-- What is written for a character does not begin with a quote. -/
theorem head_escapeChar (c : Char) (rest rest' : List Char) :
    escapeChar c ++ rest ≠ '"' :: rest' := by
  rcases escapeChar_cases c with ⟨d, -, -, hc⟩ | ⟨-, hc⟩ | ⟨-, hquote, hc⟩ <;> rw [hc]
  · exact fun h => absurd (List.cons.inj h).1 (by decide)
  · exact fun h => absurd (List.cons.inj h).1 (by decide)
  · exact fun h => hquote (List.cons.inj h).1

/-- A string and what comes after it are read off a text. -/
theorem jsonString_append_inj {s s' rest rest' : List Char}
    (h : jsonString s ++ rest = jsonString s' ++ rest') : s = s' ∧ rest = rest' := by
  unfold jsonString at h
  simp only [List.cons_append, List.append_assoc, List.nil_append, List.cons.injEq, true_and] at h
  induction s generalizing s' with
  | nil =>
    cases s' with
    | nil => exact ⟨rfl, (List.cons.inj h).2⟩
    | cons c' s' =>
      rw [List.flatMap_cons, List.append_assoc] at h
      exact absurd h.symm (head_escapeChar c' _ _)
  | cons c s ih =>
    rw [List.flatMap_cons, List.append_assoc] at h
    cases s' with
    | nil => exact absurd h (head_escapeChar c _ _)
    | cons c' s' =>
      rw [List.flatMap_cons, List.append_assoc] at h
      have hread := congrArg readChar h
      rw [readChar_escapeChar, readChar_escapeChar, Option.some.injEq, Prod.mk.injEq] at hread
      obtain ⟨rfl, hlater⟩ := hread
      obtain ⟨rfl, hrest⟩ := ih hlater
      exact ⟨rfl, hrest⟩

/-- A pair can be told from what follows it. -/
theorem jsonPair_append_inj {p p' : List Char × List Char} {rest rest' : List Char}
    (h : jsonPair p ++ rest = jsonPair p' ++ rest') : p = p' ∧ rest = rest' := by
  unfold jsonPair at h
  simp only [List.cons_append, List.append_assoc, List.nil_append, List.cons.injEq, true_and] at h
  obtain ⟨hfirst, hlater⟩ := jsonString_append_inj h
  obtain ⟨hsecond, hrest⟩ := jsonString_append_inj (List.cons.inj hlater).2
  exact ⟨Prod.ext hfirst hsecond, (List.cons.inj hrest).2⟩

/-- The pairs after the first one. -/
def laterPairs (pairs : List (List Char × List Char)) : List Char :=
  pairs.flatMap fun p => ',' :: jsonPair p

/-- No pairs make an empty list. -/
theorem jsonPairs_nil : jsonPairs [] = ['[', ']'] := rfl

/-- The first pair follows the opening bracket. -/
theorem jsonPairs_cons (p : List Char × List Char) (pairs : List (List Char × List Char)) :
    jsonPairs (p :: pairs) = '[' :: jsonPair p ++ laterPairs pairs ++ [']'] := by
  have hlater : [','].intercalate ((p :: pairs).map jsonPair) = jsonPair p ++ laterPairs pairs := by
    induction pairs generalizing p with
    | nil => simp [List.intercalate, laterPairs]
    | cons q pairs ih =>
      have hrest := ih q
      simp only [List.map_cons, List.intercalate, List.intersperse_cons_cons,
        List.flatten_cons, laterPairs, List.flatMap_cons, List.cons_append, List.nil_append] at hrest ⊢
      rw [hrest]
  rw [jsonPairs, hlater, List.append_assoc, List.cons_append, List.cons_append, List.append_assoc]

/-- The pairs after the first one can be read off the rest of the list. -/
theorem laterPairs_inj {pairs pairs' : List (List Char × List Char)}
    (h : laterPairs pairs ++ [']'] = laterPairs pairs' ++ [']']) : pairs = pairs' := by
  induction pairs generalizing pairs' with
  | nil =>
    cases pairs' with
    | nil => rfl
    | cons p' pairs' => exact absurd (List.cons.inj h).1 (by decide)
  | cons p pairs ih =>
    cases pairs' with
    | nil => exact absurd (List.cons.inj h).1 (by decide)
    | cons p' pairs' =>
      unfold laterPairs at h
      simp only [List.flatMap_cons, List.cons_append, List.append_assoc, List.cons.injEq,
        true_and] at h
      obtain ⟨rfl, hrest⟩ := jsonPair_append_inj h
      rw [ih hrest]

/-- The text of a list of pairs determines it. -/
theorem jsonPairs_injective : Function.Injective jsonPairs := by
  intro pairs pairs' h
  cases pairs with
  | nil =>
    cases pairs' with
    | nil => rfl
    | cons p' pairs' =>
      rw [jsonPairs_nil, jsonPairs_cons] at h
      exact absurd (List.cons.inj (List.cons.inj h).2).1 (by decide)
  | cons p pairs =>
    cases pairs' with
    | nil =>
      rw [jsonPairs_nil, jsonPairs_cons] at h
      exact absurd (List.cons.inj (List.cons.inj h).2).1 (by decide)
    | cons p' pairs' =>
      rw [jsonPairs_cons, jsonPairs_cons, List.append_assoc, List.append_assoc, List.cons_append,
        List.cons_append, List.cons.injEq] at h
      obtain ⟨rfl, hrest⟩ := jsonPair_append_inj h.2
      rw [laterPairs_inj hrest]

/-! ### Where a character occurs -/

/-- Whether a place is inside of a string, and whether the next character is escaped. -/
structure Place where
  inside : Bool
  escaped : Bool
  deriving DecidableEq

namespace Place

/-- The place after one more character.  A backslash escapes outside of strings too, where it does not
occur, so that a text does the same to both kinds of places. -/
def step (place : Place) (c : Char) : Place :=
  if place.escaped then { place with escaped := false }
  else if c = '\\' then { place with escaped := true }
  else if c = '"' then { place with inside := !place.inside }
  else place

def scan (place : Place) (t : List Char) : Place := t.foldl step place

/-- The character occurs in the text inside of strings only. -/
def OnlyInside (c : Char) (place : Place) : List Char → Prop
  | [] => True
  | d :: t => (d = c → place.inside = true) ∧ OnlyInside c (place.step d) t

/-- Texts are scanned one after the other. -/
theorem scan_append (place : Place) (t t' : List Char) :
    place.scan (t ++ t') = (place.scan t).scan t' := List.foldl_append

/-- A character is inside strings only if it is so in both parts of a text. -/
theorem onlyInside_append {c : Char} {place : Place} {t t' : List Char} :
    OnlyInside c place (t ++ t') ↔ OnlyInside c place t ∧ OnlyInside c (place.scan t) t' := by
  induction t generalizing place with
  | nil => exact (and_iff_right trivial).symm
  | cons d t ih =>
    rw [List.cons_append, OnlyInside, OnlyInside, ih, and_assoc]
    rfl

/-- A text leaves both kinds of places as they are and has the character inside of strings only. -/
structure Closed (c : Char) (t : List Char) : Prop where
  scan_eq : ∀ inside, scan ⟨inside, false⟩ t = ⟨inside, false⟩
  onlyInside : OnlyInside c ⟨false, false⟩ t

variable {c : Char} {t t' : List Char}

/-- Two closed texts make a closed one. -/
theorem Closed.append (h : Closed c t) (h' : Closed c t') : Closed c (t ++ t') where
  scan_eq inside := by rw [scan_append, h.scan_eq, h'.scan_eq]
  onlyInside := by
    rw [onlyInside_append, h.scan_eq]
    exact ⟨h.onlyInside, h'.onlyInside⟩

/-- The empty text is closed. -/
theorem closed_nil : Closed c [] := ⟨fun _ => rfl, trivial⟩

/-- A character that neither escapes nor quotes. -/
theorem closed_singleton {d : Char} (hback : d ≠ '\\') (hquote : d ≠ '"') (hne : d ≠ c) :
    Closed c [d] where
  scan_eq inside := by simp [scan, step, hback, hquote]
  onlyInside := ⟨fun h => absurd h hne, trivial⟩

/-- An escaped character does not leave the string. -/
theorem scan_escapeChar (inside : Bool) (d : Char) :
    scan ⟨inside, false⟩ (escapeChar d) = ⟨inside, false⟩ := by
  rcases escapeChar_cases d with ⟨d', -, -, hd⟩ | ⟨hlt, hd⟩ | ⟨hback, hquote, hd⟩
  · rw [hd]
    rfl
  · have hhi := digitChar_plain (d.toNat / 16) (by omega)
    have hlo := digitChar_plain (d.toNat % 16) (by omega)
    rw [hd]
    simp [scan, step, hhi, hlo]
  · rw [hd]
    simp [scan, step, hback, hquote]

/-- Whatever an escaped character consists of is inside. -/
theorem onlyInside_escapeChar (d : Char) : OnlyInside c ⟨true, false⟩ (escapeChar d) := by
  rcases escapeChar_cases d with ⟨d', -, -, hd⟩ | ⟨hlt, hd⟩ | ⟨hback, hquote, hd⟩
  · rw [hd]
    exact ⟨fun _ => rfl, fun _ => rfl, trivial⟩
  · have hhi := digitChar_plain (d.toNat / 16) (by omega)
    rw [hd]
    simp [OnlyInside, step, hhi]
  · rw [hd]
    exact ⟨fun _ => rfl, trivial⟩

/-- Nor does the body of a string leave it. -/
theorem scan_body (inside : Bool) (s : List Char) :
    scan ⟨inside, false⟩ (s.flatMap escapeChar) = ⟨inside, false⟩ := by
  induction s with
  | nil => rfl
  | cons d s ih => rw [List.flatMap_cons, scan_append, scan_escapeChar, ih]

/-- Whatever the body consists of is inside. -/
theorem onlyInside_body (s : List Char) : OnlyInside c ⟨true, false⟩ (s.flatMap escapeChar) := by
  induction s with
  | nil => trivial
  | cons d s ih =>
    rw [List.flatMap_cons, onlyInside_append, scan_escapeChar]
    exact ⟨onlyInside_escapeChar d, ih⟩

/-- A quotation mark leaves or enters a string. -/
theorem scan_quote (inside : Bool) : scan ⟨inside, false⟩ ['"'] = ⟨!inside, false⟩ := rfl

/-- A string is inside between its quotes. -/
theorem closed_jsonString (hquote : '"' ≠ c) (s : List Char) : Closed c (jsonString s) where
  scan_eq inside := by
    rw [jsonString, List.cons_append, ← List.singleton_append, scan_append, scan_append, scan_quote,
      scan_body, scan_quote, Bool.not_not]
  onlyInside := by
    rw [jsonString, List.cons_append, ← List.singleton_append, onlyInside_append, onlyInside_append,
      scan_quote, Bool.not_false, scan_body]
    exact ⟨⟨fun h => absurd h hquote, trivial⟩, onlyInside_body s, fun _ => rfl, trivial⟩

/-- A character that has no meaning for the syntax of lists of pairs of strings. -/
structure Plain (c : Char) : Prop where
  ne_backslash : '\\' ≠ c
  ne_quote : '"' ≠ c
  ne_open : '[' ≠ c
  ne_close : ']' ≠ c
  ne_comma : ',' ≠ c

/-- An opening bracket is closed for every other character. -/
theorem closed_open (hc : Plain c) : Closed c ['['] :=
  closed_singleton (by decide) (by decide) hc.ne_open

/-- So is a closing one. -/
theorem closed_close (hc : Plain c) : Closed c [']'] :=
  closed_singleton (by decide) (by decide) hc.ne_close

/-- So is a comma. -/
theorem closed_comma (hc : Plain c) : Closed c [','] :=
  closed_singleton (by decide) (by decide) hc.ne_comma

/-- The text of a pair is closed. -/
theorem closed_jsonPair (hc : Plain c) (p : List Char × List Char) : Closed c (jsonPair p) := by
  have hsecond := (closed_comma hc).append (closed_jsonString hc.ne_quote p.2)
  have hfirst := (closed_open hc).append (closed_jsonString hc.ne_quote p.1)
  have h := (hfirst.append hsecond).append (closed_close hc)
  unfold jsonPair
  simpa only [List.cons_append, List.nil_append, List.append_assoc] using h

/-- So are those of the pairs after the first one. -/
theorem closed_laterPairs (hc : Plain c) (pairs : List (List Char × List Char)) :
    Closed c (laterPairs pairs) := by
  induction pairs with
  | nil => exact closed_nil
  | cons p pairs ih =>
    have h := ((closed_comma hc).append (closed_jsonPair hc p)).append ih
    unfold laterPairs at h ⊢
    simpa only [List.flatMap_cons, List.cons_append, List.nil_append] using h

/-- So is the whole list. -/
theorem closed_jsonPairs (hc : Plain c) (pairs : List (List Char × List Char)) :
    Closed c (jsonPairs pairs) := by
  cases pairs with
  | nil => exact (closed_open hc).append (closed_close hc)
  | cons p pairs =>
    have h := (((closed_open hc).append (closed_jsonPair hc p)).append
      (closed_laterPairs hc pairs)).append (closed_close hc)
    rw [jsonPairs_cons]
    simpa only [List.cons_append, List.nil_append, List.append_assoc] using h

/-- After a plain character of a text that is closed, one is inside of a string. -/
theorem Closed.scan_front {front rest : List Char} (hc : Plain c) (h : Closed c (front ++ c :: rest)) :
    scan ⟨false, false⟩ (front ++ [c]) = ⟨true, false⟩ := by
  have honly := h.onlyInside
  rw [onlyInside_append, OnlyInside] at honly
  have hinside := honly.2.1 rfl
  rw [scan_append]
  generalize scan ⟨false, false⟩ front = place at hinside ⊢
  obtain ⟨inside, escaped⟩ := place
  obtain rfl : inside = true := hinside
  cases escaped with
  | true => rfl
  | false => simp [scan, step, hc.ne_backslash.symm, hc.ne_quote.symm]

end Place

/-- No text of pairs ends with a plain character and another text of pairs. -/
theorem jsonPairs_ne_append {c : Char} (hc : Place.Plain c)
    (pairs pairs' : List (List Char × List Char)) (front : List Char) :
    jsonPairs pairs ≠ front ++ c :: jsonPairs pairs' := by
  intro h
  have hclosed := Place.closed_jsonPairs hc pairs
  rw [h] at hclosed
  have hfront := hclosed.scan_front hc
  have hscan := hclosed.scan_eq false
  rw [← List.singleton_append, ← List.append_assoc, Place.scan_append, hfront,
    (Place.closed_jsonPairs hc pairs').scan_eq true] at hscan
  exact absurd (congrArg Place.inside hscan) (by decide)

/-- A list ends with its bracket. -/
theorem getLast?_jsonPairs (pairs : List (List Char × List Char)) :
    (jsonPairs pairs).getLast? = some ']' := List.getLast?_concat

end JsonText
