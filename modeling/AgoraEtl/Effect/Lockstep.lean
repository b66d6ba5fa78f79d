import AgoraEtl.Effect.Program

/-!
# Two programs in lockstep

Two programs are in lockstep if, from worlds with the same trace and related states, they make the
same calls, leave the same marks and end in the same way, against any handler.  The states may
differ in what the relation leaves open.
-/

namespace Effect

variable {Op : Type} {Ret : Op → Type} {Mark σ τ ε α β : Type}

/-- Two worlds with the same trace and related states. -/
structure Alongside (S : σ → τ → Prop) (w : World Op Ret Mark σ) (w' : World Op Ret Mark τ) :
    Prop where
  state : S w.state w'.state
  trace : w.trace = w'.trace

/-- From worlds that are alongside, both programs end alike in worlds that are alongside. -/
def Lockstep (S : σ → τ → Prop) (p : Program Op Ret Mark σ ε α)
    (q : Program Op Ret Mark τ ε α) : Prop :=
  ∀ h w w', Alongside S w w' →
    (p.run h w).1 = (q.run h w').1 ∧ Alongside S (p.run h w).2 (q.run h w').2

namespace Lockstep

open Program

variable {S : σ → τ → Prop}

theorem ret (a : α) :
    Lockstep S (.ret a : Program Op Ret Mark σ ε α) (.ret a : Program Op Ret Mark τ ε α) :=
  fun _ _ _ hw => ⟨rfl, hw⟩

theorem raise (e : ε) :
    Lockstep S (.raise e : Program Op Ret Mark σ ε α) (.raise e : Program Op Ret Mark τ ε α) :=
  fun _ _ _ hw => ⟨rfl, hw⟩

theorem note (m : Mark) :
    Lockstep S (note m : Program Op Ret Mark σ ε Unit)
      (note m : Program Op Ret Mark τ ε Unit) := by
  intro h w w' hw
  refine ⟨rfl, hw.state, ?_⟩
  rw [run_note, run_note, World.mark_trace, World.mark_trace, hw.trace]

theorem perform (o : Op) :
    Lockstep S (perform o : Program Op Ret Mark σ ε (Ret o))
      (perform o : Program Op Ret Mark τ ε (Ret o)) := by
  intro h w w' hw
  have hanswer : h w.trace o = h w'.trace o := by rw [hw.trace]
  refine ⟨?_, hw.state, ?_⟩
  · rw [run_perform, run_perform, hanswer]
  · rw [run_perform, run_perform, World.called_trace, World.called_trace, hanswer, hw.trace]

theorem modify {f : σ → σ} {g : τ → τ} (hfg : ∀ s t, S s t → S (f s) (g t)) :
    Lockstep S (modify f : Program Op Ret Mark σ ε Unit)
      (modify g : Program Op Ret Mark τ ε Unit) :=
  fun _ _ _ hw => ⟨rfl, hfg _ _ hw.state, hw.trace⟩

theorem bind {p : Program Op Ret Mark σ ε α} {q : Program Op Ret Mark τ ε α}
    {f : α → Program Op Ret Mark σ ε β} {g : α → Program Op Ret Mark τ ε β}
    (hpq : Lockstep S p q) (hfg : ∀ a, Lockstep S (f a) (g a)) :
    Lockstep S (p >>= f) (q >>= g) := by
  intro h w w' hw
  obtain ⟨houtcome, halong⟩ := hpq h w w' hw
  rw [run_bind, run_bind]
  generalize p.run h w = left at houtcome halong ⊢
  generalize q.run h w' = right at houtcome halong ⊢
  obtain ⟨outcome, v⟩ := left
  obtain ⟨outcome', v'⟩ := right
  dsimp only at houtcome halong
  subst houtcome
  cases outcome with
  | returned a => exact hfg a h v v' halong
  | raised e => exact ⟨rfl, halong⟩
  | hung => exact ⟨rfl, halong⟩

theorem attempt {p : Program Op Ret Mark σ ε α} {q : Program Op Ret Mark τ ε α}
    (hpq : Lockstep S p q) : Lockstep S p.attempt q.attempt := by
  intro h w w' hw
  obtain ⟨houtcome, halong⟩ := hpq h w w' hw
  rw [run_attempt, run_attempt, houtcome]
  exact ⟨rfl, halong⟩

theorem ofExcept (r : Except ε α) :
    Lockstep S (ofExcept r : Program Op Ret Mark σ ε α)
      (ofExcept r : Program Op Ret Mark τ ε α) := by
  cases r with
  | ok a => exact ret a
  | error e => exact raise e

end Lockstep

end Effect
