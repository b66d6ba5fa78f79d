import Mathlib.Data.List.Infix
import Mathlib.Tactic.Common

/-!
# SQL patterns

The `LIKE` operator of SQLite with an escape character: a percent sign stands for any text, an
underscore for any character, an escaped character for itself, and all other characters for themselves,
where the case of ASCII letters makes no difference.

`like_escaped_iff` says what a pattern matches that is an escaped text with a percent sign after it.
-/

/-- `s LIKE pattern ESCAPE esc`. -/
def like (esc : Char) : List Char → List Char → Bool
  | [], s => s.isEmpty
  | c :: pattern, s =>
    if c = esc then
      match pattern, s with
      | c' :: rest, d :: s' => c'.toLower == d.toLower && like esc rest s'
      | _, _ => false
    else if c = '%' then s.tails.any fun tail => like esc pattern tail
    else
      match s with
      | [] => false
      | d :: s' => (c == '_' || c.toLower == d.toLower) && like esc pattern s'

/-- `s.replace(c, replacement)` for a single character. -/
def replaceChar (c : Char) (replacement : List Char) (s : List Char) : List Char :=
  s.flatMap fun d => if d = c then replacement else [d]

/-- A text with the escape character in front of itself and of the special characters. -/
def escapeLike (s : List Char) : List Char :=
  replaceChar '_' ['\\', '_'] (replaceChar '%' ['\\', '%'] (replaceChar '\\' ['\\', '\\'] s))

/-- Two texts begin alike, up to the case of ASCII letters. -/
def FoldedPrefix (s t : List Char) : Prop := s.map Char.toLower <+: t.map Char.toLower

instance (s t : List Char) : Decidable (FoldedPrefix s t) :=
  inferInstanceAs (Decidable (s.map Char.toLower <+: t.map Char.toLower))

theorem foldedPrefix_of_isPrefix {s t : List Char} (h : s <+: t) : FoldedPrefix s t :=
  h.map Char.toLower

theorem escapeLike_cons (c : Char) (s : List Char) :
    escapeLike (c :: s) =
      (if c = '\\' ∨ c = '%' ∨ c = '_' then ['\\', c] else [c]) ++ escapeLike s := by
  unfold escapeLike replaceChar
  rw [List.flatMap_cons, List.flatMap_append, List.flatMap_append]
  by_cases hback : c = '\\'
  · subst hback
    rfl
  by_cases hpercent : c = '%'
  · subst hpercent
    rfl
  by_cases hunder : c = '_'
  · subst hunder
    rfl
  simp [hback, hpercent, hunder]

/-- An escaped text with a percent sign after it matches the texts that begin like it, up to the case of
ASCII letters. -/
theorem like_escaped_iff (s t : List Char) :
    like '\\' (escapeLike s ++ ['%']) t = true ↔ FoldedPrefix s t := by
  induction s generalizing t with
  | nil =>
    have hmatches : like '\\' ['%'] t = true := by
      unfold like
      rw [if_neg (by decide), if_pos rfl, List.any_eq_true]
      exact ⟨[], (List.mem_tails _ _).mpr List.nil_suffix, rfl⟩
    exact ⟨fun _ => List.nil_prefix, fun _ => hmatches⟩
  | cons c s ih =>
    have hcons : ∀ d t, FoldedPrefix (c :: s) (d :: t) ↔ c.toLower = d.toLower ∧ FoldedPrefix s t := by
      intro d t
      exact List.cons_prefix_cons
    have hnil : ¬ FoldedPrefix (c :: s) [] := fun h => by
      have hlength := h.length_le
      simp at hlength
    rw [escapeLike_cons]
    by_cases hspecial : c = '\\' ∨ c = '%' ∨ c = '_'
    · rw [if_pos hspecial]
      cases t with
      | nil => exact ⟨nofun, fun h => absurd h hnil⟩
      | cons d t =>
        rw [hcons, ← ih]
        change (c.toLower == d.toLower && like '\\' (escapeLike s ++ ['%']) t) = true ↔ _
        rw [Bool.and_eq_true, beq_iff_eq]
    · rw [if_neg hspecial]
      rw [not_or, not_or] at hspecial
      obtain ⟨hback, hpercent, hunder⟩ := hspecial
      change like '\\' (c :: (escapeLike s ++ ['%'])) t = true ↔ _
      unfold like
      rw [if_neg hback, if_neg hpercent]
      cases t with
      | nil => exact ⟨nofun, fun h => absurd h hnil⟩
      | cons d t =>
        rw [hcons, ← ih, Bool.and_eq_true, Bool.or_eq_true, beq_iff_eq, beq_iff_eq, or_iff_right hunder]
