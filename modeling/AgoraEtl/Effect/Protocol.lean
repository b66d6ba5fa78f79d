import AgoraEtl.Effect.Safety

/-!
# Protocols

A protocol says in which order a program may leave its events: it is a partial step function on
phases, and an event without a next phase is not allowed.  `Program.Safe` with the contract of the
protocol says that a program keeps to it, whatever it is answered, and in which phase it ends.
-/

namespace Effect

variable {Op : Type} {Ret : Op → Type} {Mark σ ε α Phase : Type}

/-- A protocol over the events of a trace. -/
structure Protocol (Op : Type) (Ret : Op → Type) (Mark Phase : Type) where
  start : Phase
  next : Phase → Event Op Ret Mark → Option Phase

namespace Protocol

variable (A : Protocol Op Ret Mark Phase)

/-- The phase after the events of a trace; `none` when one of them was not allowed. -/
def phaseOf (t : Trace Op Ret Mark) : Option Phase := t.foldlM A.next A.start

/-- Every event of the trace was allowed. -/
def Accepts (t : Trace Op Ret Mark) : Prop := (A.phaseOf t).isSome

variable {A} {t t' : Trace Op Ret Mark} {e : Event Op Ret Mark} {p p' : Phase}

@[simp] theorem phaseOf_nil : A.phaseOf [] = some A.start := rfl

/-- The phase after one more event. -/
theorem phaseOf_snoc (ht : A.phaseOf t = some p) : A.phaseOf (t ++ [e]) = A.next p e := by
  rw [phaseOf, List.foldlM_append, ← phaseOf, ht]
  simp

/-- What has been accepted was accepted at every point before. -/
theorem exists_phase_of_append (h : A.Accepts (t ++ t')) :
    ∃ p, A.phaseOf t = some p ∧ (t'.foldlM A.next p).isSome := by
  rw [Accepts, phaseOf, List.foldlM_append] at h
  cases ht : t.foldlM A.next A.start with
  | none =>
    rw [ht] at h
    exact absurd h (by simp)
  | some p =>
    rw [ht] at h
    exact ⟨p, ht, h⟩

theorem Accepts.truncate (h : A.Accepts t') (htrunc : t <+: t') : A.Accepts t := by
  obtain ⟨rest, rfl⟩ := htrunc
  obtain ⟨p, ht, -⟩ := exists_phase_of_append h
  rw [Accepts, ht]
  rfl

/-- An event of an accepted trace was allowed in the phase before it. -/
theorem Accepts.allowed (h : A.Accepts (t ++ e :: t')) :
    ∃ p p', A.phaseOf t = some p ∧ A.next p e = some p' ∧ A.phaseOf (t ++ [e]) = some p' := by
  obtain ⟨p, ht, hrest⟩ := exists_phase_of_append h
  cases hnext : A.next p e with
  | none =>
    rw [List.foldlM_cons, hnext] at hrest
    exact absurd hrest (by simp)
  | some p' => exact ⟨p, p', ht, hnext, (phaseOf_snoc ht).trans hnext⟩

/-- What holds of the empty trace and is kept by every allowed event holds of every accepted trace and
its phase. -/
theorem invariant {I : Trace Op Ret Mark → Phase → Prop} (hstart : I [] A.start)
    (hnext : ∀ t p e p', I t p → A.next p e = some p' → I (t ++ [e]) p')
    (ht : A.phaseOf t = some p) : I t p := by
  induction t using List.reverseRecOn generalizing p with
  | nil =>
    obtain rfl := Option.some.inj ht
    exact hstart
  | append_singleton t e ih =>
    have haccepts : A.Accepts (t ++ e :: []) := by
      rw [Accepts, ht]
      rfl
    obtain ⟨q, q', hq, hstep, hq'⟩ := haccepts.allowed
    obtain rfl := Option.some.inj (hq'.symm.trans ht)
    exact hnext t q e q' (ih hq) hstep

/-! ## Programs that keep to a protocol -/

variable (A) in
/-- The event is allowed after the trace, if the trace itself was. -/
def Allows (t : Trace Op Ret Mark) (e : Event Op Ret Mark) : Prop :=
  ∀ p, A.phaseOf t = some p → (A.next p e).isSome

variable (A) in
/-- The contract of a program that runs alone and keeps to the protocol. -/
def contract : Contract Op Ret Mark σ := .alone (fun _ _ => True) A.Allows True

variable {w₀ w : World Op Ret Mark σ} {E : ε → World Op Ret Mark σ → World Op Ret Mark σ → Prop}

/-- A call that is allowed whatever the answer. -/
theorem safe_perform {o : Op} {Q : Ret o → World Op Ret Mark σ → World Op Ret Mark σ → Prop}
    (hw : A.phaseOf w.trace = some p)
    (hnext : ∀ r, ∃ p', A.next p (.called o r) = some p' ∧
      (A.phaseOf (w.called o r).trace = some p' → Q r w (w.called o r))) :
    (Program.perform o : Program Op Ret Mark σ ε (Ret o)).Safe A.contract Q E w₀ w := by
  refine Program.safe_perform_alone.mpr fun r _ => ?_
  obtain ⟨p', hp', hQ⟩ := hnext r
  refine ⟨fun q hq => ?_, hQ ((phaseOf_snoc hw).trans hp')⟩
  obtain rfl := Option.some.inj (hq.symm.trans hw)
  rw [hp']
  rfl

/-- A mark that is allowed. -/
theorem safe_note {m : Mark} {Q : Unit → World Op Ret Mark σ → World Op Ret Mark σ → Prop}
    (hw : A.phaseOf w.trace = some p) (hnext : A.next p (.mark m) = some p')
    (hQ : A.phaseOf (w.mark m).trace = some p' → Q () w₀ (w.mark m)) :
    (Program.note m : Program Op Ret Mark σ ε Unit).Safe A.contract Q E w₀ w := by
  refine Program.safe_note m |>.mpr fun _ => ⟨fun q hq => ?_, hQ ((phaseOf_snoc hw).trans hnext)⟩
  obtain rfl := Option.some.inj (hq.symm.trans hw)
  rw [hnext]
  rfl

/-- The trace of a program that keeps to the protocol is accepted. -/
theorem accepts_run (h : Handler Op Ret Mark) {prog : Program Op Ret Mark σ ε α}
    {Q : α → World Op Ret Mark σ → World Op Ret Mark σ → Prop} (hstart : w.trace = [])
    (hs : prog.Safe A.contract Q E w₀ w) :
    A.Accepts (prog.run h w).2.trace ∧
      match (prog.run h w).1 with
      | .returned a => ∃ w₁, Q a w₁ (prog.run h w).2
      | .raised e => ∃ w₁, E e w₁ (prog.run h w).2
      | .hung => True := by
  obtain ⟨t, ht, hpost⟩ := hs.run_alone h
  have hassumed : Along (fun _ _ => True) w.trace t := along_iff.mpr fun _ _ _ _ => trivial
  obtain ⟨hallowed, hend⟩ := hpost hassumed
  refine ⟨?_, hend⟩
  rw [ht, hstart, List.nil_append]
  rw [hstart, along_iff] at hallowed
  clear ht hpost hassumed hend
  induction t using List.reverseRecOn with
  | nil => rfl
  | append_singleton t e ih =>
    have hfront : A.Accepts t := ih fun t₁ e' t₂ h' => hallowed t₁ e' (t₂ ++ [e]) (by simp [h'])
    obtain ⟨p, hp⟩ := Option.isSome_iff_exists.mp hfront
    rw [Accepts, phaseOf_snoc hp]
    exact hallowed t e [] rfl p hp

end Protocol

end Effect
