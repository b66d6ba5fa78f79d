import Mathlib.Data.List.Induction

/-!
# Runs of a transition system

A run is a list of labels, each of which is a step from the state before it to the state after it.
`Runs.invariant` is the induction rule for whole runs.
-/

namespace Effect

variable {σ ι : Type}

/-- A run that starts in `s₀`, with its labels in order. -/
inductive Runs (step : σ → ι → σ → Prop) (s₀ : σ) : List ι → σ → Prop where
  | start : Runs step s₀ [] s₀
  | snoc {labels : List ι} {s s' : σ} {label : ι} (run : Runs step s₀ labels s)
      (next : step s label s') : Runs step s₀ (labels ++ [label]) s'

namespace Runs

variable {step : σ → ι → σ → Prop} {s₀ s : σ} {labels : List ι}

/-- What holds at the start and is kept by every step holds after every run. -/
theorem invariant {I : List ι → σ → Prop} (hstart : I [] s₀)
    (hstep : ∀ labels s label s', I labels s → step s label s' → I (labels ++ [label]) s')
    (h : Runs step s₀ labels s) : I labels s := by
  induction h with
  | start => exact hstart
  | snoc run next ih => exact hstep _ _ _ _ ih next

/-- A run is one of any system that has its steps. -/
theorem mono {step' : σ → ι → σ → Prop} (hstep : ∀ s label s', step s label s' → step' s label s')
    (h : Runs step s₀ labels s) : Runs step' s₀ labels s := by
  induction h with
  | start => exact .start
  | snoc run next ih => exact ih.snoc (hstep _ _ _ next)

/-- Under an invariant a run is one of any system that has its steps where the invariant holds. -/
theorem mono_of_invariant {step' : σ → ι → σ → Prop} {I : σ → Prop} (hstart : I s₀)
    (hstep : ∀ s label s', I s → step s label s' → step' s label s' ∧ I s')
    (h : Runs step s₀ labels s) : Runs step' s₀ labels s ∧ I s := by
  induction h with
  | start => exact ⟨.start, hstart⟩
  | snoc run next ih =>
    obtain ⟨hrun, hI⟩ := ih
    obtain ⟨hnext, hI'⟩ := hstep _ _ _ hI next
    exact ⟨hrun.snoc hnext, hI'⟩

/-- A run whose last label is known has that step at its end. -/
theorem last {label : ι} (h : Runs step s₀ (labels ++ [label]) s) :
    ∃ s₁, Runs step s₀ labels s₁ ∧ step s₁ label s := by
  generalize hl : labels ++ [label] = all at h
  cases h with
  | start => exact absurd hl (by simp)
  | snoc run next =>
    obtain ⟨rfl, hlabel⟩ := List.append_inj' hl rfl
    cases hlabel
    exact ⟨_, run, next⟩

/-- A run can be cut anywhere. -/
theorem split {labels' : List ι} (h : Runs step s₀ (labels ++ labels') s) :
    ∃ s₁, Runs step s₀ labels s₁ ∧ Runs step s₁ labels' s := by
  induction labels' using List.reverseRecOn generalizing s with
  | nil => exact ⟨s, by rwa [List.append_nil] at h, .start⟩
  | append_singleton labels' label ih =>
    rw [← List.append_assoc] at h
    obtain ⟨s₁, hrun, hnext⟩ := h.last
    obtain ⟨s₂, hrun₁, hrun₂⟩ := ih hrun
    exact ⟨s₂, hrun₁, hrun₂.snoc hnext⟩

/-- Runs compose. -/
theorem append {s₁ : σ} {labels' : List ι} (h : Runs step s₀ labels s₁)
    (h' : Runs step s₁ labels' s) : Runs step s₀ (labels ++ labels') s := by
  induction h' with
  | start =>
    rw [List.append_nil]
    exact h
  | snoc run next ih =>
    rw [← List.append_assoc]
    exact ih.snoc next

/-- A property of the steps of a run is the same as another if an invariant makes them the same at
every step, and is kept by the steps that have them. -/
theorem iff_of_invariant {P Q : σ → ι → σ → Prop} {I : σ → Prop} (hstart : I s₀)
    (hiff : ∀ s label s', I s → step s label s' → (P s label s' ↔ Q s label s'))
    (hkeep : ∀ s label s', I s → step s label s' → Q s label s' → I s') :
    Runs (fun s label s' => step s label s' ∧ P s label s') s₀ labels s ↔
      Runs (fun s label s' => step s label s' ∧ Q s label s') s₀ labels s := by
  constructor
  · intro h
    refine (h.mono_of_invariant hstart fun s label s' hI hnext => ?_).1
    have hQ := (hiff s label s' hI hnext.1).mp hnext.2
    exact ⟨⟨hnext.1, hQ⟩, hkeep s label s' hI hnext.1 hQ⟩
  · intro h
    refine (h.mono_of_invariant hstart fun s label s' hI hnext => ?_).1
    have hP := (hiff s label s' hI hnext.1).mpr hnext.2
    exact ⟨⟨hnext.1, hP⟩, hkeep s label s' hI hnext.1 hnext.2⟩

/-- A run of a function goes where the function goes. -/
theorem foldlM_eq {next : σ → ι → Option σ}
    (hnext : ∀ s label s', step s label s' → next s label = some s')
    (h : Runs step s₀ labels s) : labels.foldlM next s₀ = some s := by
  induction h with
  | start => rfl
  | snoc run step ih =>
    rw [List.foldlM_append, ih]
    simp [hnext _ _ _ step]

/-- Where a function goes there is a run. -/
theorem of_foldlM {next : σ → ι → Option σ} (h : labels.foldlM next s₀ = some s) :
    Runs (fun s label s' => next s label = some s') s₀ labels s := by
  induction labels using List.reverseRecOn generalizing s with
  | nil =>
    obtain rfl := Option.some.inj h
    exact .start
  | append_singleton labels label ih =>
    rw [List.foldlM_append] at h
    obtain ⟨s₁, hfront, hlast⟩ := Option.bind_eq_some_iff.mp h
    rw [List.foldlM_cons] at hlast
    obtain ⟨s₂, hnext, hdone⟩ := Option.bind_eq_some_iff.mp hlast
    obtain rfl := Option.some.inj hdone
    exact (ih hfront).snoc hnext

/-- Where some step always leads on with a smaller measure, a run can be completed. -/
theorem reach {J done : σ → Prop} (μ : σ → ℕ)
    (hprogress : ∀ s, J s → ¬ done s → ∃ label s', step s label s' ∧ J s' ∧ μ s' < μ s)
    (hs : J s) : ∃ labels s', Runs step s labels s' ∧ J s' ∧ done s' := by
  induction hn : μ s using Nat.strongRecOn generalizing s with
  | ind n ih =>
    by_cases hdone : done s
    · exact ⟨[], s, .start, hs, hdone⟩
    · obtain ⟨label, s', hstep, hs', hlt⟩ := hprogress s hs hdone
      rw [hn] at hlt
      obtain ⟨labels, s'', hrun, hs'', hdone'⟩ := ih (μ s') hlt hs' rfl
      have hfirst : Runs step s [label] s' := Runs.snoc .start hstep
      exact ⟨[label] ++ labels, s'', hfirst.append hrun, hs'', hdone'⟩

end Runs

end Effect
