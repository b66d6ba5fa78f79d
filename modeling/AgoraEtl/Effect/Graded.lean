import Mathlib.Algebra.Group.Defs
import AgoraEtl.Effect.Footprint

/-!
# Keeping books

A grading measures how far a program moves the state: each step of the state has an amount in a monoid,
and the amounts of successive steps add up.  `Books` says by which amount a program has moved the state when
it returns; what it does when it raises is left open, except for programs within the quiet footprint of
the grading, which move nothing whatever happens.

The rules follow the shape of the program, so that the amount of a program is the sum over its parts.
-/

namespace Effect

variable {Op : Type} {Ret : Op → Type} {Mark σ ε α β M N : Type} [AddMonoid M] [AddMonoid N]

/-- Steps of the state with their amounts, which add up. -/
structure Grading (M σ : Type) [AddMonoid M] where
  rel : M → σ → σ → Prop
  refl : ∀ s, rel 0 s s
  trans : ∀ {m n s s' s''}, rel m s s' → rel n s' s'' → rel (m + n) s s''

namespace Grading

/-- The footprint of programs that move nothing. -/
def quiet (G : Grading M σ) : Footprint Op Mark σ where
  marks := fun _ => True
  calls := fun _ => True
  writes := G.rel 0
  hangs := True

end Grading

namespace Program

variable {G : Grading M σ} {A : Trace Op Ret Mark → Event Op Ret Mark → Prop}

/-- When the program returns, it has moved the state by an amount that fits the value, provided that
the calls were answered as assumed. -/
def Books (G : Grading M σ) (A : Trace Op Ret Mark → Event Op Ret Mark → Prop) (δ : α → M → Prop)
    (p : Program Op Ret Mark σ ε α) : Prop :=
  ∀ w₀ w, p.Safe (.alone A (fun _ _ => True) True)
    (fun a _ w' => ∃ d, δ a d ∧ G.rel d w.state w'.state) (fun _ _ _ => True) w₀ w

/-- When the program returns, it has moved the state by the amount. -/
abbrev Moves (G : Grading M σ) (A : Trace Op Ret Mark → Event Op Ret Mark → Prop) (n : M)
    (p : Program Op Ret Mark σ ε α) : Prop := p.Books G A fun _ d => d = n

/-- What the program returns and the state it leaves then have the property. -/
def Yields (A : Trace Op Ret Mark → Event Op Ret Mark → Prop) (P : α → σ → Prop)
    (p : Program Op Ret Mark σ ε α) : Prop :=
  ∀ w₀ w, p.Safe (.alone A (fun _ _ => True) True) (fun a _ w' => P a w'.state) (fun _ _ _ => True) w₀ w

/-- Less may be said of the change. -/
theorem Books.mono {δ δ' : α → M → Prop} (hδ : ∀ a d, δ a d → δ' a d)
    {p : Program Op Ret Mark σ ε α} (hp : p.Books G A δ) : p.Books G A δ' := by
  intro w₀ w
  refine (hp w₀ w).mono (fun a _ w' h => ?_) fun _ _ _ _ => trivial
  obtain ⟨d, hd, hrel⟩ := h
  exact ⟨d, hδ a d hd, hrel⟩

/-- A grading whose steps are steps of another measures the same programs. -/
theorem Books.coarsen {H : Grading N σ} {f : M → N} (hGH : ∀ d s s', G.rel d s s' → H.rel (f d) s s')
    {δ : α → M → Prop} {δ' : α → N → Prop} (hδ : ∀ a d, δ a d → δ' a (f d))
    {p : Program Op Ret Mark σ ε α} (hp : p.Books G A δ) : p.Books H A δ' := by
  intro w₀ w
  refine (hp w₀ w).mono (fun a _ w' h => ?_) fun _ _ _ _ => trivial
  obtain ⟨d, hd, hrel⟩ := h
  exact ⟨f d, hδ a d hd, hGH d _ _ hrel⟩

section Rules

variable {δ : α → M → Prop}

/-- Returning changes nothing. -/
theorem books_ret {a : α} (h : δ a 0) : (ret a : Program Op Ret Mark σ ε α).Books G A δ :=
  fun _ w => ⟨0, h, G.refl w.state⟩

/-- A program that raises has not returned. -/
theorem books_raise (e : ε) : (raise e : Program Op Ret Mark σ ε α).Books G A δ :=
  fun _ _ => trivial

/-- A change of the state is booked. -/
theorem books_modify {f : σ → σ} {δ : Unit → M → Prop} {d : M} (h : ∀ s, G.rel d s (f s))
    (hd : δ () d) : (modify f : Program Op Ret Mark σ ε Unit).Books G A δ :=
  fun _ w => ⟨d, hd, h w.state⟩

/-- The amounts of a sequence add up. -/
theorem books_bind {p : Program Op Ret Mark σ ε α} {f : α → Program Op Ret Mark σ ε β}
    {δ' : β → M → Prop} (hp : p.Books G A δ)
    (hf : ∀ a d, δ a d → (f a).Books G A fun b d' => δ' b (d + d')) : (p >>= f).Books G A δ' := by
  intro w₀ w
  rw [safe_bind]
  refine (hp w₀ w).mono (fun a w₁ w' h => ?_) fun _ _ _ h => h
  obtain ⟨d, hd, hrel⟩ := h
  refine (hf a d hd w₁ w').mono (fun b _ w'' h => ?_) fun _ _ _ h => h
  obtain ⟨d', hd', hrel'⟩ := h
  exact ⟨d + d', hd', G.trans hrel hrel'⟩

/-- A sequence of fixed amounts. -/
theorem moves_bind {p : Program Op Ret Mark σ ε α} {f : α → Program Op Ret Mark σ ε β} {m n k : M}
    (hp : p.Moves G A m) (hf : ∀ a, (f a).Moves G A n) (hk : m + n = k) : (p >>= f).Moves G A k :=
  books_bind hp fun a d hd => (hf a).mono fun _ d' hd' => by rw [hd, hd', hk]

/-- Both branches have to be booked alike. -/
theorem books_ite {c : Prop} [Decidable c] {p q : Program Op Ret Mark σ ε α}
    (hp : p.Books G A δ) (hq : q.Books G A δ) : (if c then p else q).Books G A δ := by
  split
  · exact hp
  · exact hq

/-- Quiet programs move nothing, also when they raise. -/
theorem safe_of_quiet {p : Program Op Ret Mark σ ε α} (hp : p.Within G.quiet)
    (w₀ w : World Op Ret Mark σ) :
    p.Safe (.alone A (fun _ _ => True) True) (fun _ _ w' => G.rel 0 w.state w'.state)
      (fun _ _ w' => G.rel 0 w.state w'.state) w₀ w := by
  refine Safe.frame (J := fun w' => G.rel 0 w.state w'.state) (fun w' s hw' hs => ?_)
    (fun _ _ _ hw' _ => ⟨trivial, hw'⟩) (fun _ _ _ _ hw' _ => ⟨trivial, hw'⟩) (fun _ => trivial) hp
    (G.refl _)
  simpa using G.trans hw' hs

/-- A quiet program changes nothing. -/
theorem moves_of_quiet {p : Program Op Ret Mark σ ε α} (hp : p.Within G.quiet) :
    p.Moves G A 0 := by
  intro w₀ w
  exact (safe_of_quiet hp w₀ w).mono (fun _ _ _ h => ⟨0, rfl, h⟩) fun _ _ _ _ => trivial

/-- A quiet program before one that moves. -/
theorem books_quiet_bind {p : Program Op Ret Mark σ ε α} {f : α → Program Op Ret Mark σ ε β}
    {δ' : β → M → Prop} (hp : p.Within G.quiet) (hf : ∀ a, (f a).Books G A δ') :
    (p >>= f).Books G A δ' :=
  books_bind (moves_of_quiet hp) fun a d hd => (hf a).mono fun b d' h => by rwa [hd, zero_add]

/-- A quiet program after one that moves. -/
theorem books_bind_quiet {p : Program Op Ret Mark σ ε α} {f : α → Program Op Ret Mark σ ε β} {n : M}
    (hp : p.Moves G A n) (hf : ∀ a, (f a).Within G.quiet) : (p >>= f).Moves G A n :=
  moves_bind hp (fun a => moves_of_quiet (hf a)) (add_zero n)

/-- Two facts about what a program has done when it returns. -/
theorem safe_and_returns {p : Program Op Ret Mark σ ε α}
    {Q Q' : α → World Op Ret Mark σ → World Op Ret Mark σ → Prop} {w₀ w : World Op Ret Mark σ}
    (hp : p.Safe (.alone A (fun _ _ => True) True) Q (fun _ _ _ => True) w₀ w)
    (hp' : p.Safe (.alone A (fun _ _ => True) True) Q' (fun _ _ _ => True) w₀ w) :
    p.Safe (.alone A (fun _ _ => True) True) (fun a w₀ w => Q a w₀ w ∧ Q' a w₀ w)
      (fun _ _ _ => True) w₀ w :=
  (Safe.and (fun _ _ h => h) (fun _ _ _ h => h) (fun _ _ h => h) hp hp').mono (fun _ _ _ h => h)
    fun _ _ _ _ => trivial

/-- A quiet program whose error is handled. -/
theorem books_attempt_quiet {p : Program Op Ret Mark σ ε α} {δ : Except ε α → M → Prop}
    {P : α → Prop} (hp : p.Within G.quiet) (hyields : p.Yields A fun a _ => P a)
    (hok : ∀ a, P a → δ (.ok a) 0) (herror : ∀ e, δ (.error e) 0) : p.attempt.Books G A δ := by
  intro w₀ w
  rw [safe_attempt]
  have hboth := Safe.and (fun _ _ h => h) (fun _ _ _ h => h) (fun _ _ h => h)
    (safe_of_quiet (A := A) hp w₀ w) (hyields w₀ w)
  exact hboth.mono (fun a _ w' h => ⟨0, hok a h.2, h.1⟩) fun e _ w' h => ⟨0, herror e, h.1⟩

/-- When the program returns, it has moved the state by the amount; when it raises, not at all. -/
def AllOrNothing (G : Grading M σ) (A : Trace Op Ret Mark → Event Op Ret Mark → Prop) (n : M)
    (p : Program Op Ret Mark σ ε α) : Prop :=
  ∀ w₀ w, p.Safe (.alone A (fun _ _ => True) True) (fun _ _ w' => G.rel n w.state w'.state)
    (fun _ _ w' => G.rel 0 w.state w'.state) w₀ w

/-- Both branches have to change all or nothing. -/
theorem allOrNothing_ite {c : Prop} [Decidable c] {p q : Program Op Ret Mark σ ε α} {n : M}
    (hp : p.AllOrNothing G A n) (hq : q.AllOrNothing G A n) :
    (if c then p else q).AllOrNothing G A n := by
  split
  · exact hp
  · exact hq

/-- A quiet program may come first. -/
theorem allOrNothing_quiet_bind {p : Program Op Ret Mark σ ε α}
    {f : α → Program Op Ret Mark σ ε β} {n : M} (hp : p.Within G.quiet)
    (hf : ∀ a, (f a).AllOrNothing G A n) : (p >>= f).AllOrNothing G A n := by
  intro w₀ w
  rw [safe_bind]
  refine (safe_of_quiet hp w₀ w).mono (fun a w₁ w' h => ?_) fun _ _ _ h => h
  refine (hf a w₁ w').mono (fun _ _ w'' h' => ?_) fun _ _ w'' h' => ?_
  · simpa using G.trans h h'
  · simpa using G.trans h h'

/-- A program that moves nothing when it fails, with a handler that then moves as much. -/
theorem moves_allOrNothing_attempt {p : Program Op Ret Mark σ ε α}
    {f : Except ε α → Program Op Ret Mark σ ε β} {n : M} (hp : p.AllOrNothing G A n)
    (hok : ∀ a, (f (.ok a)).Moves G A 0) (herror : ∀ e, (f (.error e)).Moves G A n) :
    (p.attempt >>= f).Moves G A n := by
  intro w₀ w
  rw [safe_bind, safe_attempt]
  refine (hp w₀ w).mono (fun a w₁ w' h => ?_) fun e w₁ w' h => ?_
  · refine (hok a w₁ w').mono (fun b _ w'' h' => ?_) fun _ _ _ h => h
    obtain ⟨d, rfl, hrel⟩ := h'
    exact ⟨n, rfl, by simpa using G.trans h hrel⟩
  · refine (herror e w₁ w').mono (fun b _ w'' h' => ?_) fun _ _ _ h => h
    obtain ⟨d, rfl, hrel⟩ := h'
    exact ⟨d, rfl, by simpa using G.trans h hrel⟩

/-- The rounds of a loop that move nothing. -/
theorem moves_iterate {κ : Type} {body : κ → Program Op Ret Mark σ ε (κ ⊕ α)}
    (hbody : ∀ k, (body k).Moves G A 0) (n : ℕ) (k : κ) : (iterate body n k).Moves G A 0 := by
  intro w₀ w
  refine safe_iterate trivial (I := fun _ _ w' => ∃ d, d = 0 ∧ G.rel d w.state w'.state)
    (fun k w₁ w' hk => ?_) n ⟨0, rfl, G.refl _⟩
  obtain ⟨d, rfl, hrel⟩ := hk
  refine (hbody k w₁ w').mono (fun next _ w'' h => ?_) fun _ _ _ h => h
  obtain ⟨d', rfl, hrel'⟩ := h
  have hmoved : ∃ d, d = 0 ∧ G.rel d w.state w''.state :=
    ⟨0, rfl, by simpa using G.trans hrel hrel'⟩
  cases next with
  | inl k' => exact hmoved
  | inr a => exact hmoved

/-- A program whose failure makes the whole fail. -/
theorem moves_attempt {p : Program Op Ret Mark σ ε α} {f : Except ε α → Program Op Ret Mark σ ε β}
    {m n k : M} (hp : p.Moves G A m) (hok : ∀ a, (f (.ok a)).Moves G A n)
    (herror : ∀ e, (f (.error e)).Yields A fun _ _ => False) (hk : m + n = k) :
    (p.attempt >>= f).Moves G A k := by
  intro w₀ w
  rw [safe_bind, safe_attempt]
  refine (hp w₀ w).mono (fun a w₁ w' h => ?_) fun e w₁ w' _ => ?_
  · obtain ⟨d, rfl, hrel⟩ := h
    refine (hok a w₁ w').mono (fun b _ w'' h => ?_) fun _ _ _ h => h
    obtain ⟨d', rfl, hrel'⟩ := h
    exact ⟨k, rfl, hk ▸ G.trans hrel hrel'⟩
  · exact (herror e w₁ w').mono (fun _ _ _ h => h.elim) fun _ _ _ h => h

/-- What the first part yields may be used by the second. -/
theorem yields_bind {p : Program Op Ret Mark σ ε α} {f : α → Program Op Ret Mark σ ε β}
    {P : α → Prop} {P' : β → σ → Prop} (hp : p.Yields A fun a _ => P a)
    (hf : ∀ a, P a → (f a).Yields A P') : (p >>= f).Yields A P' := by
  intro w₀ w
  rw [safe_bind]
  exact (hp w₀ w).mono (fun a w₁ w' h => hf a h w₁ w') fun _ _ _ h => h

/-- Nothing is asked of the result. -/
theorem yields_true (p : Program Op Ret Mark σ ε α) : p.Yields A fun _ _ => True := by
  intro w₀ w
  induction p generalizing w₀ w with
  | ret a => trivial
  | raise e => trivial
  | hang => trivial
  | get k ih => exact ih w.state w₀ w
  | put s k ih => exact ih w₀ _
  | emit m k ih => exact fun _ => ⟨trivial, ih w₀ _⟩
  | call o k ih => exact ⟨trivial, fun w₁ _ r _ _ => ⟨trivial, ih r w₁ _⟩⟩

/-- Only the last program of a sequence matters. -/
theorem yields_of_last {p : Program Op Ret Mark σ ε α} {f : α → Program Op Ret Mark σ ε β}
    {P : β → σ → Prop} (hf : ∀ a, (f a).Yields A P) : (p >>= f).Yields A P :=
  yields_bind (P := fun _ => True) (yields_true p) fun a _ => hf a

/-- A returned value is what is yielded. -/
theorem yields_ret {a : α} {P : α → Prop} (h : P a) :
    (ret a : Program Op Ret Mark σ ε α).Yields A fun a _ => P a := fun _ _ => h

/-- A program that raises yields nothing. -/
theorem yields_raise (e : ε) {P : α → σ → Prop} :
    (raise e : Program Op Ret Mark σ ε α).Yields A P :=
  fun _ _ => trivial

/-- A loop ends in a round that leaves it. -/
theorem yields_iterate {κ : Type} {body : κ → Program Op Ret Mark σ ε (κ ⊕ α)} {P : α → σ → Prop}
    (hbody : ∀ k, (body k).Yields A fun next s => ∀ a, next = .inr a → P a s) (n : ℕ) (k : κ) :
    (iterate body n k).Yields A P := by
  intro w₀ w
  refine safe_iterate trivial (I := fun _ _ _ => True) (fun k w₁ w' _ => ?_) n trivial
  refine (hbody k w₁ w').mono (fun next _ w'' h => ?_) fun _ _ _ h => h
  cases next with
  | inl k' => trivial
  | inr a => exact h a rfl

end Rules

/-- What is known of a program when it returns holds of a run that returns. -/
theorem returned_of_safe {p : Program Op Ret Mark σ ε α} {Q : α → World Op Ret Mark σ → Prop}
    {h : Handler Op Ret Mark} {w : World Op Ret Mark σ}
    (hp : p.Safe (.alone A (fun _ _ => True) True) (fun a _ w' => Q a w') (fun _ _ _ => True) w w)
    (hassume : ∀ t, (p.run h w).2.trace = w.trace ++ t → Along A w.trace t)
    {a : α} {w' : World Op Ret Mark σ} (hrun : p.run h w = (.returned a, w')) : Q a w' := by
  obtain ⟨t, ht, hpost⟩ := hp.run_alone h
  have hend := (hpost (hassume t ht)).2
  rw [hrun] at hend
  obtain ⟨w₁, hw'⟩ := hend
  exact hw'

end Program

end Effect
