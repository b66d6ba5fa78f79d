import AgoraEtl.Effect.Program

/-!
# Safety of programs under interference

A contract fixes what a program may take for granted about the events of the trace, what it has to
ensure about them, and, because other programs may act on the state while it waits for an answer,
what it relies on and guarantees between two of its calls.

`Program.Safe` is the weakest precondition of a program for a contract.  Its second world argument
is where the current stretch of uninterrupted execution began, so that the guarantee can speak about
the whole stretch.  The rules below compute it through the program constructions; `Safe.run_sound`
reads it back for a run without interference.
-/

namespace Effect

variable {Op : Type} {Ret : Op → Type} {Mark σ ε α β : Type}

/-! ## Properties of the events of a trace -/

/-- Every event of the second trace has the property `P`, relative to the trace before it; the
first trace comes before all of them. -/
def Along (P : Trace Op Ret Mark → Event Op Ret Mark → Prop) :
    Trace Op Ret Mark → Trace Op Ret Mark → Prop
  | _, [] => True
  | t₀, e :: t => P t₀ e ∧ Along P (t₀ ++ [e]) t

section Along

variable {P : Trace Op Ret Mark → Event Op Ret Mark → Prop}

/-- There is nothing to show along an empty trace. -/
@[simp] theorem along_nil (t₀ : Trace Op Ret Mark) : Along P t₀ [] := trivial

/-- A property holds along a trace if it holds of the first event and along the rest. -/
@[simp] theorem along_cons (t₀ t : Trace Op Ret Mark) (e : Event Op Ret Mark) :
    Along P t₀ (e :: t) ↔ P t₀ e ∧ Along P (t₀ ++ [e]) t := Iff.rfl

instance decidableAlong [∀ t e, Decidable (P t e)] :
    (t₀ t : Trace Op Ret Mark) → Decidable (Along P t₀ t)
  | _, [] => .isTrue trivial
  | t₀, e :: t =>
    have := decidableAlong (t₀ ++ [e]) t
    inferInstanceAs (Decidable (P t₀ e ∧ Along P (t₀ ++ [e]) t))

/-- A property holds along two parts if it does along each. -/
theorem along_append {t₀ t t' : Trace Op Ret Mark} :
    Along P t₀ (t ++ t') ↔ Along P t₀ t ∧ Along P (t₀ ++ t) t' := by
  induction t generalizing t₀ with
  | nil => simp
  | cons e t ih => simp [ih, and_assoc]

/-- The property holds along a trace exactly when it holds at every way of cutting it. -/
theorem along_iff {t₀ t : Trace Op Ret Mark} :
    Along P t₀ t ↔ ∀ t₁ e t₂, t = t₁ ++ e :: t₂ → P (t₀ ++ t₁) e := by
  constructor
  · rintro h t₁ e t₂ rfl
    exact ((along_append.mp h).2).1
  · intro h
    induction t generalizing t₀ with
    | nil => trivial
    | cons e t ih =>
      refine ⟨by simpa using h [] e t rfl, ih fun t₁ e' t₂ ht => ?_⟩
      simpa using h (e :: t₁) e' t₂ (by rw [ht]; rfl)

/-- A weaker property holds along the same trace. -/
theorem Along.mono {P' : Trace Op Ret Mark → Event Op Ret Mark → Prop}
    (hP : ∀ t e, P t e → P' t e) {t₀ t : Trace Op Ret Mark} (h : Along P t₀ t) :
    Along P' t₀ t := by
  induction t generalizing t₀ with
  | nil => trivial
  | cons e t ih => exact ⟨hP _ _ h.1, ih h.2⟩

end Along

/-- A call is answered by the handler. -/
def Answered (h : Handler Op Ret Mark) (t : Trace Op Ret Mark) (e : Event Op Ret Mark) : Prop :=
  ∀ o r, e = .called o r → r = h t o

/-- Every call of a run was answered by the handler. -/
theorem Program.answered_run (h : Handler Op Ret Mark) (p : Program Op Ret Mark σ ε α)
    (w : World Op Ret Mark σ) :
    ∃ t, (p.run h w).2.trace = w.trace ++ t ∧ Along (Answered h) w.trace t := by
  induction p generalizing w with
  | ret a => exact ⟨[], by simp, trivial⟩
  | raise e => exact ⟨[], by simp, trivial⟩
  | hang => exact ⟨[], by simp, trivial⟩
  | get k ih => exact ih w.state w
  | put s k ih => exact ih (w.write s)
  | emit m k ih =>
    obtain ⟨t, ht, hal⟩ := ih (w.mark m)
    exact ⟨.mark m :: t, ht.trans (by simp), nofun, hal⟩
  | call o k ih =>
    obtain ⟨t, ht, hal⟩ := ih (h w.trace o) (w.called o (h w.trace o))
    refine ⟨.called o (h w.trace o) :: t, ht.trans (by simp), fun o' r he => ?_, hal⟩
    cases he
    rfl

/-! ## Contracts -/

/-- What a program may assume and has to ensure. -/
structure Contract (Op : Type) (Ret : Op → Type) (Mark σ : Type) where
  /-- Which answers a call can be given in a state. -/
  ready : σ → (o : Op) → Ret o → Prop
  /-- What is taken for granted about the next event of the trace. -/
  assume : Trace Op Ret Mark → Event Op Ret Mark → Prop
  /-- What the program has to ensure about the next event it causes. -/
  ensure : Trace Op Ret Mark → Event Op Ret Mark → Prop
  /-- How the others may change the world while the program waits for an answer. -/
  rely : World Op Ret Mark σ → World Op Ret Mark σ → Prop
  /-- How the program may change the world between two of its calls. -/
  guarantee : World Op Ret Mark σ → World Op Ret Mark σ → Prop
  /-- Whether the program may hang. -/
  mayHang : Prop

namespace Program

/-- The program is safe for the contract when started in the world `w`, where the current stretch of
execution began in `w₀`; it then ends in `Q` if it returns and in `E` if it raises. -/
def Safe (C : Contract Op Ret Mark σ)
    (Q : α → World Op Ret Mark σ → World Op Ret Mark σ → Prop)
    (E : ε → World Op Ret Mark σ → World Op Ret Mark σ → Prop) :
    Program Op Ret Mark σ ε α → World Op Ret Mark σ → World Op Ret Mark σ → Prop
  | ret a, w₀, w => Q a w₀ w
  | raise e, w₀, w => E e w₀ w
  | hang, _, _ => C.mayHang
  | get k, w₀, w => (k w.state).Safe C Q E w₀ w
  | put s k, w₀, w => k.Safe C Q E w₀ (w.write s)
  | emit m k, w₀, w =>
    C.assume w.trace (.mark m) → C.ensure w.trace (.mark m) ∧ k.Safe C Q E w₀ (w.mark m)
  | call o k, w₀, w =>
    C.guarantee w₀ w ∧ ∀ w₁, C.rely w w₁ → ∀ r, C.ready w₁.state o r →
      C.assume w₁.trace (.called o r) →
      C.ensure w₁.trace (.called o r) ∧ (k r).Safe C Q E w₁ (w₁.called o r)

section Rules

variable {C : Contract Op Ret Mark σ}
  {Q : α → World Op Ret Mark σ → World Op Ret Mark σ → Prop}
  {E : ε → World Op Ret Mark σ → World Op Ret Mark σ → Prop}
  {w₀ w : World Op Ret Mark σ}

/-- Returning is safe if the result is right. -/
@[simp] theorem safe_ret (a : α) :
    (ret a : Program Op Ret Mark σ ε α).Safe C Q E w₀ w ↔ Q a w₀ w := Iff.rfl

/-- Raising is safe if the error is. -/
@[simp] theorem safe_raise (e : ε) :
    (raise e : Program Op Ret Mark σ ε α).Safe C Q E w₀ w ↔ E e w₀ w := Iff.rfl

/-- Hanging is safe if it is allowed. -/
@[simp] theorem safe_hang :
    (hang : Program Op Ret Mark σ ε α).Safe C Q E w₀ w ↔ C.mayHang := Iff.rfl

/-- Reading returns the state. -/
@[simp] theorem safe_read {Q : σ → World Op Ret Mark σ → World Op Ret Mark σ → Prop} :
    (read : Program Op Ret Mark σ ε σ).Safe C Q E w₀ w ↔ Q w.state w₀ w := Iff.rfl

/-- Modifying writes it. -/
@[simp] theorem safe_modify {Q : Unit → World Op Ret Mark σ → World Op Ret Mark σ → Prop}
    (f : σ → σ) :
    (modify f : Program Op Ret Mark σ ε Unit).Safe C Q E w₀ w ↔
      Q () w₀ (w.write (f w.state)) := Iff.rfl

/-- Overwriting the state, with the new world as a variable. -/
theorem safe_modify_of {Q : Unit → World Op Ret Mark σ → World Op Ret Mark σ → Prop} {f : σ → σ}
    (h : ∀ w', w'.state = f w.state → w'.trace = w.trace → Q () w₀ w') :
    (modify f : Program Op Ret Mark σ ε Unit).Safe C Q E w₀ w :=
  h _ rfl rfl

/-- A mark has to be right, and may be taken for granted afterwards. -/
@[simp] theorem safe_note {Q : Unit → World Op Ret Mark σ → World Op Ret Mark σ → Prop}
    (m : Mark) :
    (note m : Program Op Ret Mark σ ε Unit).Safe C Q E w₀ w ↔
      (C.assume w.trace (.mark m) → C.ensure w.trace (.mark m) ∧ Q () w₀ (w.mark m)) := Iff.rfl

/-- A call follows what others do, and its event has to be right. -/
@[simp] theorem safe_perform {o : Op} {Q : Ret o → World Op Ret Mark σ → World Op Ret Mark σ → Prop} :
    (perform o : Program Op Ret Mark σ ε (Ret o)).Safe C Q E w₀ w ↔
      C.guarantee w₀ w ∧ ∀ w₁, C.rely w w₁ → ∀ r, C.ready w₁.state o r →
        C.assume w₁.trace (.called o r) →
        C.ensure w₁.trace (.called o r) ∧ Q r w₁ (w₁.called o r) := Iff.rfl

/-- Passing on an outcome is safe if the outcome is right. -/
@[simp] theorem safe_ofExcept (r : Except ε α) :
    (ofExcept r : Program Op Ret Mark σ ε α).Safe C Q E w₀ w ↔
      match r with
      | .ok a => Q a w₀ w
      | .error e => E e w₀ w := by
  cases r <;> exact Iff.rfl

/-- A composed program is safe when its first part is, with the safety of the rest as
postcondition. -/
@[simp] theorem safe_bind {Q : β → World Op Ret Mark σ → World Op Ret Mark σ → Prop}
    (p : Program Op Ret Mark σ ε α) (f : α → Program Op Ret Mark σ ε β) :
    (p >>= f).Safe C Q E w₀ w ↔ p.Safe C (fun a => (f a).Safe C Q E) E w₀ w := by
  change (p.bind f).Safe C Q E w₀ w ↔ _
  induction p generalizing w₀ w with
  | ret a => exact Iff.rfl
  | raise e => exact Iff.rfl
  | hang => exact Iff.rfl
  | get k ih => exact ih w.state
  | put s k ih => exact ih
  | emit m k ih => exact imp_congr_right fun _ => and_congr_right fun _ => ih
  | call o k ih =>
    exact and_congr_right fun _ => forall_congr' fun w₁ => imp_congr_right fun _ =>
      forall_congr' fun r => imp_congr_right fun _ => imp_congr_right fun _ =>
        and_congr_right fun _ => ih r

/-- Attempting a program turns its error condition into a postcondition. -/
@[simp] theorem safe_attempt
    {Q : Except ε α → World Op Ret Mark σ → World Op Ret Mark σ → Prop}
    (p : Program Op Ret Mark σ ε α) :
    p.attempt.Safe C Q E w₀ w ↔
      p.Safe C (fun a => Q (.ok a)) (fun e => Q (.error e)) w₀ w := by
  induction p generalizing w₀ w with
  | ret a => exact Iff.rfl
  | raise e => exact Iff.rfl
  | hang => exact Iff.rfl
  | get k ih => exact ih w.state
  | put s k ih => exact ih
  | emit m k ih => exact imp_congr_right fun _ => and_congr_right fun _ => ih
  | call o k ih =>
    exact and_congr_right fun _ => forall_congr' fun w₁ => imp_congr_right fun _ =>
      forall_congr' fun r => imp_congr_right fun _ => imp_congr_right fun _ =>
        and_congr_right fun _ => ih r

/-- Weaker postconditions are easier to meet. -/
theorem Safe.mono {Q' : α → World Op Ret Mark σ → World Op Ret Mark σ → Prop}
    {E' : ε → World Op Ret Mark σ → World Op Ret Mark σ → Prop}
    (hQ : ∀ a w₀ w, Q a w₀ w → Q' a w₀ w) (hE : ∀ e w₀ w, E e w₀ w → E' e w₀ w)
    {p : Program Op Ret Mark σ ε α} {w₀ w : World Op Ret Mark σ} (h : p.Safe C Q E w₀ w) :
    p.Safe C Q' E' w₀ w := by
  induction p generalizing w₀ w with
  | ret a => exact hQ a w₀ w h
  | raise e => exact hE e w₀ w h
  | hang => exact h
  | get k ih => exact ih w.state h
  | put s k ih => exact ih h
  | emit m k ih => exact fun ha => ⟨(h ha).1, ih (h ha).2⟩
  | call o k ih =>
    refine ⟨h.1, fun w₁ hr r hready ha => ?_⟩
    have hcall := h.2 w₁ hr r hready ha
    exact ⟨hcall.1, ih r hcall.2⟩

/-- Two contracts can be shown of a program one after the other: the second one takes for granted no
more than the first. -/
theorem Safe.and {C' : Contract Op Ret Mark σ}
    {Q' : α → World Op Ret Mark σ → World Op Ret Mark σ → Prop}
    {E' : ε → World Op Ret Mark σ → World Op Ret Mark σ → Prop}
    (hrely : ∀ w w', C.rely w w' → C'.rely w w') (hready : ∀ s o r, C.ready s o r → C'.ready s o r)
    (hassume : ∀ t e, C.assume t e → C'.assume t e)
    {p : Program Op Ret Mark σ ε α} {w₀ w : World Op Ret Mark σ} (h : p.Safe C Q E w₀ w)
    (h' : p.Safe C' Q' E' w₀ w) :
    p.Safe C (fun a w₀ w => Q a w₀ w ∧ Q' a w₀ w) (fun e w₀ w => E e w₀ w ∧ E' e w₀ w) w₀ w := by
  induction p generalizing w₀ w with
  | ret a => exact ⟨h, h'⟩
  | raise e => exact ⟨h, h'⟩
  | hang => exact h
  | get k ih => exact ih w.state h h'
  | put s k ih => exact ih h h'
  | emit m k ih =>
    intro ha
    exact ⟨(h ha).1, ih (h ha).2 (h' (hassume _ _ ha)).2⟩
  | call o k ih =>
    refine ⟨h.1, fun w₁ hr r hans ha => ?_⟩
    have hcall := h.2 w₁ hr r hans ha
    have hcall' := h'.2 w₁ (hrely _ _ hr) r (hready _ _ _ hans) (hassume _ _ ha)
    exact ⟨hcall.1, ih r hcall.2 hcall'.2⟩

/-- A contract that takes for granted no less and asks for no more is easier to meet. -/
theorem Safe.weaken {D : Contract Op Ret Mark σ} (hrely : ∀ w w', D.rely w w' → C.rely w w')
    (hready : ∀ s o r, D.ready s o r → C.ready s o r)
    (hassume : ∀ t e, D.assume t e → C.assume t e) (hensure : ∀ t e, C.ensure t e → D.ensure t e)
    (hguarantee : ∀ w w', C.guarantee w w' → D.guarantee w w') (hhang : C.mayHang → D.mayHang)
    {p : Program Op Ret Mark σ ε α} {w₀ w : World Op Ret Mark σ} (h : p.Safe C Q E w₀ w) :
    p.Safe D Q E w₀ w := by
  induction p generalizing w₀ w with
  | ret a => exact h
  | raise e => exact h
  | hang => exact hhang h
  | get k ih => exact ih w.state h
  | put s k ih => exact ih h
  | emit m k ih =>
    intro ha
    have hmark := h (hassume _ _ ha)
    exact ⟨hensure _ _ hmark.1, ih hmark.2⟩
  | call o k ih =>
    refine ⟨hguarantee _ _ h.1, fun w₁ hr r hans ha => ?_⟩
    have hcall := h.2 w₁ (hrely _ _ hr) r (hready _ _ _ hans) (hassume _ _ ha)
    exact ⟨hensure _ _ hcall.1, ih r hcall.2⟩

/-- What the program itself ensures need not be taken for granted. -/
theorem Safe.cut {A : Trace Op Ret Mark → Event Op Ret Mark → Prop}
    {Q' : α → World Op Ret Mark σ → World Op Ret Mark σ → Prop}
    {E' : ε → World Op Ret Mark σ → World Op Ret Mark σ → Prop}
    {p : Program Op Ret Mark σ ε α} {w₀ w : World Op Ret Mark σ}
    (h : p.Safe { C with assume := A } Q E w₀ w) (h' : p.Safe { C with ensure := A } Q' E' w₀ w) :
    p.Safe C Q E w₀ w := by
  induction p generalizing w₀ w with
  | ret a => exact h
  | raise e => exact h
  | hang => exact h
  | get k ih => exact ih w.state h h'
  | put s k ih => exact ih h h'
  | emit m k ih =>
    intro ha
    obtain ⟨hmark, hrest⟩ := h' ha
    exact ⟨(h hmark).1, ih (h hmark).2 hrest⟩
  | call o k ih =>
    refine ⟨h.1, fun w₁ hr r hans ha => ?_⟩
    obtain ⟨hcalled, hrest⟩ := h'.2 w₁ hr r hans ha
    have hcall := h.2 w₁ hr r hans hcalled
    exact ⟨hcall.1, ih r hcall.2 hrest⟩

/-- A loop is safe when its body keeps an invariant of the loop state. -/
theorem safe_iterate {κ : Type} (hhang : C.mayHang)
    {I : κ → World Op Ret Mark σ → World Op Ret Mark σ → Prop}
    {body : κ → Program Op Ret Mark σ ε (κ ⊕ α)}
    (hbody : ∀ k w₀ w, I k w₀ w →
      (body k).Safe C (fun r w₀ w => r.elim (fun k' => I k' w₀ w) fun a => Q a w₀ w) E w₀ w)
    (n : ℕ) {k : κ} {w₀ w : World Op Ret Mark σ} (hI : I k w₀ w) :
    (iterate body n k).Safe C Q E w₀ w := by
  induction n generalizing k w₀ w with
  | zero => exact hhang
  | succ n ih =>
    change (Program.bind (body k) _).Safe C Q E w₀ w
    rw [← bind_eq, safe_bind]
    refine (hbody k w₀ w hI).mono (fun r w₀ w hr => ?_) fun e w₀ w he => he
    cases r with
    | inl k' => exact ih hr
    | inr a => exact hr

/-- A loop whose body also decreases a measure is safe, and it does not hang if it may go round
more often than the measure says. -/
theorem safe_iterate_measure {κ : Type}
    {I : κ → World Op Ret Mark σ → World Op Ret Mark σ → Prop} (m : κ → World Op Ret Mark σ → ℕ)
    {body : κ → Program Op Ret Mark σ ε (κ ⊕ α)}
    (hbody : ∀ k w₀ w, I k w₀ w →
      (body k).Safe C (fun r w₀' w' => r.elim (fun k' => I k' w₀' w' ∧ m k' w' < m k w)
        fun a => Q a w₀' w') E w₀ w)
    (n : ℕ) {k : κ} {w₀ w : World Op Ret Mark σ} (hn : C.mayHang ∨ m k w < n) (hI : I k w₀ w) :
    (iterate body n k).Safe C Q E w₀ w := by
  induction n generalizing k w₀ w with
  | zero => exact hn.resolve_right (Nat.not_lt_zero _)
  | succ n ih =>
    change (Program.bind (body k) _).Safe C Q E w₀ w
    rw [← bind_eq, safe_bind]
    refine (hbody k w₀ w hI).mono (fun r w₀' w' hr => ?_) fun e w₀ w he => he
    cases r with
    | inl k' => exact ih (hn.imp_right fun hlt => by have := hr.2; omega) hr.1
    | inr a => exact hr

/-- What `Safe` says about a run without interference: as long as the events meet the assumption,
they meet the obligation, and the run ends in the postcondition. -/
theorem Safe.run_sound (hrely : ∀ w, C.rely w w) (hready : ∀ s o r, C.ready s o r)
    (h : Handler Op Ret Mark)
    {p : Program Op Ret Mark σ ε α} {w₀ w : World Op Ret Mark σ} (hs : p.Safe C Q E w₀ w) :
    ∃ t, (p.run h w).2.trace = w.trace ++ t ∧
      (Along C.assume w.trace t → Along C.ensure w.trace t ∧
        match (p.run h w).1 with
        | .returned a => ∃ w₁, Q a w₁ (p.run h w).2
        | .raised e => ∃ w₁, E e w₁ (p.run h w).2
        | .hung => C.mayHang) := by
  induction p generalizing w₀ w with
  | ret a => exact ⟨[], by simp, fun _ => ⟨trivial, w₀, hs⟩⟩
  | raise e => exact ⟨[], by simp, fun _ => ⟨trivial, w₀, hs⟩⟩
  | hang => exact ⟨[], by simp, fun _ => ⟨trivial, hs⟩⟩
  | get k ih => exact ih w.state hs
  | put s k ih => exact ih hs
  | emit m k ih =>
    by_cases ha : C.assume w.trace (.mark m)
    · obtain ⟨t, ht, hpost⟩ := ih (hs ha).2
      refine ⟨.mark m :: t, ht.trans (by simp), fun hal => ?_⟩
      have hrest := hpost hal.2
      exact ⟨⟨(hs ha).1, hrest.1⟩, hrest.2⟩
    · obtain ⟨t, ht⟩ := trace_prefix_run h (w.mark m) k
      exact ⟨.mark m :: t, ht.symm.trans (by simp), fun hal => absurd hal.1 ha⟩
  | call o k ih =>
    have hcall := hs.2 w (hrely w) (h w.trace o) (hready _ _ _)
    by_cases ha : C.assume w.trace (.called o (h w.trace o))
    · obtain ⟨t, ht, hpost⟩ := ih (h w.trace o) (hcall ha).2
      refine ⟨.called o (h w.trace o) :: t, ht.trans (by simp), fun hal => ?_⟩
      have hrest := hpost hal.2
      exact ⟨⟨(hcall ha).1, hrest.1⟩, hrest.2⟩
    · obtain ⟨t, ht⟩ := trace_prefix_run h (w.called o (h w.trace o)) (k (h w.trace o))
      exact ⟨.called o (h w.trace o) :: t, ht.symm.trans (by simp), fun hal => absurd hal.1 ha⟩

end Rules

end Program

/-- The contract under which only the values of a program are of interest: the others may do anything
but take events back. -/
def Contract.observing (assume : Trace Op Ret Mark → Event Op Ret Mark → Prop) :
    Contract Op Ret Mark σ where
  ready := fun _ _ _ => True
  assume := assume
  ensure := fun _ _ => True
  rely := fun w w' => w.trace <+: w'.trace
  guarantee := fun _ _ => True
  mayHang := True

/-! ## Programs that run alone -/

/-- The contract of a program that runs alone and calls operations that answer at will. -/
def Contract.alone (assume ensure : Trace Op Ret Mark → Event Op Ret Mark → Prop)
    (mayHang : Prop) : Contract Op Ret Mark σ where
  ready := fun _ _ _ => True
  assume := assume
  ensure := ensure
  rely := Eq
  guarantee := fun _ _ => True
  mayHang := mayHang

namespace Program

variable {assume ensure : Trace Op Ret Mark → Event Op Ret Mark → Prop} {mayHang : Prop}
  {E : ε → World Op Ret Mark σ → World Op Ret Mark σ → Prop} {w₀ w : World Op Ret Mark σ}

/-- A call that runs alone meets the state as it was left. -/
@[simp] theorem safe_perform_alone {o : Op}
    {Q : Ret o → World Op Ret Mark σ → World Op Ret Mark σ → Prop} :
    (perform o : Program Op Ret Mark σ ε (Ret o)).Safe (.alone assume ensure mayHang) Q E w₀ w ↔
      ∀ r, assume w.trace (.called o r) →
        ensure w.trace (.called o r) ∧ Q r w (w.called o r) := by
  refine safe_perform.trans ⟨fun h r ha => h.2 w rfl r trivial ha, fun h => ⟨trivial, ?_⟩⟩
  rintro _ rfl r - ha
  exact h r ha

/-- What `Safe` says about a run of a program that runs alone. -/
theorem Safe.run_alone {Q : α → World Op Ret Mark σ → World Op Ret Mark σ → Prop}
    (h : Handler Op Ret Mark) {p : Program Op Ret Mark σ ε α}
    (hs : p.Safe (.alone assume ensure mayHang) Q E w₀ w) :
    ∃ t, (p.run h w).2.trace = w.trace ++ t ∧
      (Along assume w.trace t → Along ensure w.trace t ∧
        match (p.run h w).1 with
        | .returned a => ∃ w₁, Q a w₁ (p.run h w).2
        | .raised e => ∃ w₁, E e w₁ (p.run h w).2
        | .hung => mayHang) :=
  hs.run_sound (fun _ => rfl) (fun _ _ _ => trivial) h

end Program

/-- The contract of a program that runs alone and whose calls are answered by the handler. -/
def Contract.answered (h : Handler Op Ret Mark) (mayHang : Prop) : Contract Op Ret Mark σ :=
  .alone (Answered h) (fun _ _ => True) mayHang

namespace Program

variable {h : Handler Op Ret Mark} {mayHang : Prop} {w₀ w : World Op Ret Mark σ}
  {E : ε → World Op Ret Mark σ → World Op Ret Mark σ → Prop}

/-- A call in a fixed environment is answered by it. -/
@[simp] theorem safe_perform_answered {o : Op}
    {Q : Ret o → World Op Ret Mark σ → World Op Ret Mark σ → Prop} :
    (perform o : Program Op Ret Mark σ ε (Ret o)).Safe (.answered h mayHang) Q E w₀ w ↔
      Q (h w.trace o) w (w.called o (h w.trace o)) := by
  refine safe_perform_alone.trans ⟨fun hs => (hs _ fun o' r' he => ?_).2, fun hQ r hr => ⟨trivial, ?_⟩⟩
  · cases he
    rfl
  · rw [hr o r rfl]
    exact hQ

/-- What `Safe` says about the run with the handler. -/
theorem Safe.run_answered {Q : α → World Op Ret Mark σ → World Op Ret Mark σ → Prop}
    {p : Program Op Ret Mark σ ε α} (hs : p.Safe (.answered h mayHang) Q E w₀ w) :
    match p.run h w with
    | (.returned a, w') => ∃ w₁, Q a w₁ w'
    | (.raised e, w') => ∃ w₁, E e w₁ w'
    | (.hung, _) => mayHang := by
  obtain ⟨t, ht, hpost⟩ := hs.run_alone h
  obtain ⟨t', ht', hanswered⟩ := answered_run h p w
  obtain rfl : t = t' := List.append_cancel_left (ht.symm.trans ht')
  have hend := (hpost hanswered).2
  cases hrun : p.run h w with
  | mk r w' =>
    rw [hrun] at hend
    cases r <;> exact hend

/-- A loop whose body decreases a measure ends the same way with more rounds than it needs. -/
theorem run_iterate_more {κ : Type} (h : Handler Op Ret Mark) {I : κ → World Op Ret Mark σ → Prop}
    (m : κ → World Op Ret Mark σ → ℕ) {body : κ → Program Op Ret Mark σ ε (κ ⊕ α)}
    (hbody : ∀ k w k' w', I k w → (body k).run h w = (.returned (.inl k'), w') →
      I k' w' ∧ m k' w' < m k w)
    (n more : ℕ) {k : κ} {w : World Op Ret Mark σ} (hn : m k w < n) (hI : I k w) :
    (iterate body (n + more) k).run h w = (iterate body n k).run h w := by
  induction n generalizing k w with
  | zero => exact absurd hn (Nat.not_lt_zero _)
  | succ n ih =>
    have hrounds : n + 1 + more = (n + more) + 1 := by omega
    rw [hrounds]
    change (body k >>= _).run h w = (body k >>= _).run h w
    rw [run_bind, run_bind]
    cases hrun : (body k).run h w with
    | mk outcome w' =>
      cases outcome with
      | raised e => rfl
      | hung => rfl
      | returned r =>
        cases r with
        | inr a => rfl
        | inl k' =>
          obtain ⟨hI', hlt⟩ := hbody k w k' w' hI hrun
          exact ih (by omega) hI'

/-- A loop whose body decreases a measure hangs only where one of its rounds does, if it may go round
more often than the measure says. -/
theorem run_iterate_hung {κ : Type} {h : Handler Op Ret Mark} {I : κ → World Op Ret Mark σ → Prop}
    (m : κ → World Op Ret Mark σ → ℕ) {body : κ → Program Op Ret Mark σ ε (κ ⊕ α)}
    (hbody : ∀ k w k' w', I k w → (body k).run h w = (.returned (.inl k'), w') →
      I k' w' ∧ m k' w' < m k w)
    {n : ℕ} {k : κ} {w w' : World Op Ret Mark σ} (hn : m k w < n) (hI : I k w)
    (hrun : (iterate body n k).run h w = (.hung, w')) :
    ∃ k₁ w₁, I k₁ w₁ ∧ (body k₁).run h w₁ = (.hung, w') := by
  induction n generalizing k w with
  | zero => exact absurd hn (Nat.not_lt_zero _)
  | succ n ih =>
    change (body k >>= _).run h w = _ at hrun
    rw [run_bind] at hrun
    cases hround : (body k).run h w with
    | mk outcome w₁ =>
      rw [hround] at hrun
      cases outcome with
      | raised e => cases hrun
      | hung =>
        cases hrun
        exact ⟨k, w, hI, hround⟩
      | returned r =>
        cases r with
        | inr a => cases hrun
        | inl k' =>
          obtain ⟨hI', hlt⟩ := hbody k w k' w₁ hI hround
          exact ih (by omega) hI' hrun

end Program

end Effect
