import Mathlib.Data.List.Basic
import Mathlib.Tactic.Common

/-!
# Two texts with a separator between them

Two pairs of texts are joined to the same text if they are equal or if a part of one moves over the
separator to give the other (`Joined.eq_iff`).  With a separator of one character, or of one character
twice, it is said what such a part looks like.
-/

variable {α : Type*}

namespace Joined

/-- A part at the end of the first text of `p'` moves over the separator to give `p`. -/
def Straddles (sep : List α) (p p' : List α × List α) : Prop :=
  ∃ part ≠ [], p'.1 = p.1 ++ part ∧ sep ++ p.2 = part ++ (sep ++ p'.2)

variable {sep : List α} {p p' : List α × List α}

theorem Straddles.ne (h : Straddles sep p p') : p.1 ≠ p'.1 := by
  obtain ⟨part, hpart, hfirst, -⟩ := h
  rw [hfirst]
  exact fun hsame => hpart (List.append_right_eq_self.mp hsame.symm)

/-- When two pairs of texts are joined to the same text. -/
theorem eq_iff {a b a' b' : List α} :
    a ++ (sep ++ b) = a' ++ (sep ++ b') ↔
      (a, b) = (a', b') ∨ Straddles sep (a, b) (a', b') ∨ Straddles sep (a', b') (a, b) := by
  unfold Straddles
  dsimp only
  constructor
  · intro h
    rcases List.append_eq_append_iff.mp h with ⟨part, hfirst, hsecond⟩ | ⟨part, hfirst, hsecond⟩
    · by_cases hpart : part = []
      · subst hpart
        rw [List.append_nil] at hfirst
        exact .inl (Prod.ext hfirst.symm (List.append_cancel_left hsecond))
      · exact .inr (.inl ⟨part, hpart, hfirst, hsecond⟩)
    · by_cases hpart : part = []
      · subst hpart
        rw [List.append_nil] at hfirst
        exact .inl (Prod.ext hfirst (List.append_cancel_left hsecond).symm)
      · exact .inr (.inr ⟨part, hpart, hfirst, hsecond⟩)
  · rintro (hsame | ⟨part, -, hfirst, hsecond⟩ | ⟨part, -, hfirst, hsecond⟩)
    · rw [Prod.mk.injEq] at hsame
      rw [hsame.1, hsame.2]
    · rw [hfirst, hsecond, List.append_assoc]
    · rw [hfirst, hsecond, List.append_assoc]

/-- A part that is not shorter than the separator has it in front. -/
theorem straddles_of_part {middle : List α} (hfirst : p'.1 = p.1 ++ (sep ++ middle))
    (hsecond : p.2 = middle ++ (sep ++ p'.2)) (hsep : sep ≠ []) : Straddles sep p p' := by
  refine ⟨sep ++ middle, fun h => hsep (List.append_eq_nil_iff.mp h).1, hfirst, ?_⟩
  rw [hsecond, List.append_assoc]

theorem straddles_singleton_iff {c : α} :
    Straddles [c] p p' ↔
      ∃ middle, p'.1 = p.1 ++ ([c] ++ middle) ∧ p.2 = middle ++ ([c] ++ p'.2) := by
  constructor
  · rintro ⟨part, hpart, hfirst, hsecond⟩
    cases part with
    | nil => exact absurd rfl hpart
    | cons d middle =>
      obtain ⟨rfl, hlater⟩ := List.cons.inj hsecond
      exact ⟨middle, hfirst, hlater⟩
  · rintro ⟨middle, hfirst, hsecond⟩
    exact straddles_of_part hfirst hsecond (List.cons_ne_nil c [])

/-- With a separator that repeats a character, the part may also be that character. -/
theorem straddles_pair_iff {c : α} :
    Straddles [c, c] p p' ↔
      (∃ middle, p'.1 = p.1 ++ ([c, c] ++ middle) ∧ p.2 = middle ++ ([c, c] ++ p'.2)) ∨
        (p'.1 = p.1 ++ [c] ∧ p.2 = c :: p'.2) := by
  constructor
  · rintro ⟨part, hpart, hfirst, hsecond⟩
    match part with
    | [] => exact absurd rfl hpart
    | [d] =>
      obtain ⟨rfl, hlater⟩ := List.cons.inj hsecond
      exact .inr ⟨hfirst, (List.cons.inj hlater).2⟩
    | d :: e :: middle =>
      obtain ⟨rfl, hlater⟩ := List.cons.inj hsecond
      obtain ⟨rfl, hrest⟩ := List.cons.inj hlater
      exact .inl ⟨middle, hfirst, hrest⟩
  · rintro (⟨middle, hfirst, hsecond⟩ | ⟨hfirst, hsecond⟩)
    · exact straddles_of_part hfirst hsecond (List.cons_ne_nil c [c])
    · exact ⟨[c], List.cons_ne_nil c [], hfirst, by rw [hsecond]; rfl⟩

end Joined
