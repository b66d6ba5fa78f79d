import AgoraEtl.Effect.Safety

/-!
# Footprints

A footprint bounds what a program can do in one step: the marks it leaves, the operations it calls,
how it overwrites the state, and whether it can hang.  Staying within a footprint is a property of
the program alone, with nothing said about the values it computes.

`Safe.of_within` is the frame rule: a world invariant that every action of a footprint keeps is kept
by every program within that footprint.
-/

namespace Effect

variable {Op : Type} {Ret : Op → Type} {Mark σ ε α β : Type}

/-- The actions a program is allowed. -/
structure Footprint (Op Mark σ : Type) where
  /-- The marks it may leave. -/
  marks : Mark → Prop
  /-- The operations it may call. -/
  calls : Op → Prop
  /-- The state it may write over a state. -/
  writes : σ → σ → Prop
  /-- Whether it may hang. -/
  hangs : Prop

namespace Program

/-- The program stays within the footprint when started in the state. -/
def WithinFrom (F : Footprint Op Mark σ) : Program Op Ret Mark σ ε α → σ → Prop
  | ret _, _ => True
  | raise _, _ => True
  | hang, _ => F.hangs
  | get k, s => (k s).WithinFrom F s
  | put s' k, s => F.writes s s' ∧ k.WithinFrom F s'
  | emit m k, s => F.marks m ∧ k.WithinFrom F s
  | call o k, _ => F.calls o ∧ ∀ r s', (k r).WithinFrom F s'

/-- The program stays within the footprint. -/
def Within (F : Footprint Op Mark σ) (p : Program Op Ret Mark σ ε α) : Prop :=
  ∀ s, p.WithinFrom F s

section Rules

variable {F : Footprint Op Mark σ}

/-- Returning leaves no trace. -/
@[simp] theorem within_ret (a : α) : (ret a : Program Op Ret Mark σ ε α).Within F :=
  fun _ => trivial

/-- Nor does raising. -/
@[simp] theorem within_raise (e : ε) : (raise e : Program Op Ret Mark σ ε α).Within F :=
  fun _ => trivial

/-- A program may hang where the footprint allows it. -/
theorem within_hang (h : F.hangs) : (hang : Program Op Ret Mark σ ε α).Within F := fun _ => h

/-- Reading leaves no trace. -/
@[simp] theorem within_read : (read : Program Op Ret Mark σ ε σ).Within F := fun _ => trivial

/-- A change of the state has to be one of the footprint. -/
theorem within_modify {f : σ → σ} (h : ∀ s, F.writes s (f s)) :
    (modify f : Program Op Ret Mark σ ε Unit).Within F := fun s => ⟨h s, trivial⟩

/-- So does a mark. -/
theorem within_note {m : Mark} (h : F.marks m) :
    (note m : Program Op Ret Mark σ ε Unit).Within F := fun _ => ⟨h, trivial⟩

/-- So does a call. -/
theorem within_perform {o : Op} (h : F.calls o) :
    (perform o : Program Op Ret Mark σ ε (Ret o)).Within F := fun _ => ⟨h, fun _ _ => trivial⟩

/-- Passing on an outcome leaves no trace. -/
@[simp] theorem within_ofExcept (r : Except ε α) :
    (ofExcept r : Program Op Ret Mark σ ε α).Within F := by
  cases r <;> exact fun _ => trivial

/-- A sequence stays within a footprint from a state if its parts do. -/
theorem withinFrom_bind {p : Program Op Ret Mark σ ε α} {f : α → Program Op Ret Mark σ ε β}
    (hf : ∀ a, (f a).Within F) {s : σ} (hp : p.WithinFrom F s) : (p >>= f).WithinFrom F s := by
  change (p.bind f).WithinFrom F s
  induction p generalizing s with
  | ret a => exact hf a s
  | raise e => trivial
  | hang => exact hp
  | get k ih => exact ih s hp
  | put s' k ih => exact ⟨hp.1, ih hp.2⟩
  | emit m k ih => exact ⟨hp.1, ih hp.2⟩
  | call o k ih => exact ⟨hp.1, fun r s' => ih r (hp.2 r s')⟩

/-- A sequence stays within a footprint if its parts do. -/
theorem within_bind {p : Program Op Ret Mark σ ε α} {f : α → Program Op Ret Mark σ ε β}
    (hp : p.Within F) (hf : ∀ a, (f a).Within F) : (p >>= f).Within F :=
  fun s => withinFrom_bind hf (hp s)

/-- An attempt stays within the footprint of its program. -/
theorem within_attempt {p : Program Op Ret Mark σ ε α} (hp : p.Within F) :
    p.attempt.Within F := by
  intro s
  have hs := hp s
  clear hp
  induction p generalizing s with
  | ret a => trivial
  | raise e => trivial
  | hang => exact hs
  | get k ih => exact ih s s hs
  | put s' k ih => exact ⟨hs.1, ih s' hs.2⟩
  | emit m k ih => exact ⟨hs.1, ih s hs.2⟩
  | call o k ih => exact ⟨hs.1, fun r s' => ih r s' (hs.2 r s')⟩

/-- Both branches have to stay within the footprint. -/
theorem within_ite {c : Prop} [Decidable c] {p q : Program Op Ret Mark σ ε α}
    (hp : p.Within F) (hq : q.Within F) : (if c then p else q).Within F := by
  split
  · exact hp
  · exact hq

/-- A loop stays within a footprint that allows it to hang, if its rounds do. -/
theorem within_iterate {κ : Type} {body : κ → Program Op Ret Mark σ ε (κ ⊕ α)} (hhang : F.hangs)
    (hbody : ∀ k, (body k).Within F) (n : ℕ) (k : κ) : (iterate body n k).Within F := by
  induction n generalizing k with
  | zero => exact within_hang hhang
  | succ n ih =>
    refine within_bind (hbody k) fun r => ?_
    cases r with
    | inl k' => exact ih k'
    | inr a => exact within_ret a

/-- A larger footprint admits more programs. -/
theorem Within.mono {F' : Footprint Op Mark σ} (hm : ∀ m, F.marks m → F'.marks m)
    (hc : ∀ o, F.calls o → F'.calls o) (hw : ∀ s s', F.writes s s' → F'.writes s s')
    (hh : F.hangs → F'.hangs) {p : Program Op Ret Mark σ ε α} (hp : p.Within F) :
    p.Within F' := by
  intro s
  have hs := hp s
  clear hp
  induction p generalizing s with
  | ret a => trivial
  | raise e => trivial
  | hang => exact hh hs
  | get k ih => exact ih s s hs
  | put s' k ih => exact ⟨hw _ _ hs.1, ih s' hs.2⟩
  | emit m k ih => exact ⟨hm _ hs.1, ih s hs.2⟩
  | call o k ih => exact ⟨hc _ hs.1, fun r s' => ih r s' (hs.2 r s')⟩

/-- The frame rule: an invariant kept by every action of a footprint is kept by every program within
it. -/
theorem Safe.of_within {C : Contract Op Ret Mark σ}
    {J : World Op Ret Mark σ → World Op Ret Mark σ → Prop}
    (hwrite : ∀ w₀ w s, J w₀ w → F.writes w.state s → J w₀ (w.write s))
    (hmark : ∀ w₀ w m, F.marks m → J w₀ w → C.assume w.trace (.mark m) →
      C.ensure w.trace (.mark m) ∧ J w₀ (w.mark m))
    (hcall : ∀ w₀ w o, F.calls o → J w₀ w → C.guarantee w₀ w ∧ ∀ w₁, C.rely w w₁ →
      ∀ r, C.ready w₁.state o r → C.assume w₁.trace (.called o r) →
        C.ensure w₁.trace (.called o r) ∧ J w₁ (w₁.called o r))
    (hhang : F.hangs → C.mayHang)
    {p : Program Op Ret Mark σ ε α} (hp : p.Within F) {w₀ w : World Op Ret Mark σ}
    (hJ : J w₀ w) : p.Safe C (fun _ => J) (fun _ => J) w₀ w := by
  have hs := hp w.state
  clear hp
  induction p generalizing w₀ w with
  | ret a => exact hJ
  | raise e => exact hJ
  | hang => exact hhang hs
  | get k ih => exact ih w.state hJ hs
  | put s' k ih => exact ih (hwrite _ _ _ hJ hs.1) hs.2
  | emit m k ih =>
    intro ha
    have hm := hmark w₀ w m hs.1 hJ ha
    exact ⟨hm.1, ih hm.2 hs.2⟩
  | call o k ih =>
    have hc := hcall w₀ w o hs.1 hJ
    refine ⟨hc.1, fun w₁ hr r hready ha => ?_⟩
    have hrest := hc.2 w₁ hr r hready ha
    exact ⟨hrest.1, ih r hrest.2 (hs.2 r _)⟩

/-- The frame rule on top of a contract: what every action of its footprint keeps is kept by a safe
program, and may show a stronger guarantee. -/
theorem Safe.framed {C D : Contract Op Ret Mark σ}
    {Q : α → World Op Ret Mark σ → World Op Ret Mark σ → Prop}
    {E : ε → World Op Ret Mark σ → World Op Ret Mark σ → Prop}
    {J : World Op Ret Mark σ → World Op Ret Mark σ → Prop}
    (hrely : ∀ w w', D.rely w w' → C.rely w w') (hready : ∀ s o r, D.ready s o r → C.ready s o r)
    (hassume : ∀ t e, D.assume t e → C.assume t e) (hensure : ∀ t e, C.ensure t e → D.ensure t e)
    (hhang : C.mayHang → D.mayHang)
    (hwrite : ∀ w₀ w s, J w₀ w → F.writes w.state s → J w₀ (w.write s))
    (hmark : ∀ w₀ w m, F.marks m → J w₀ w → J w₀ (w.mark m))
    (hcall : ∀ w₀ w o, F.calls o → J w₀ w → D.guarantee w₀ w ∧
      ∀ w₁, D.rely w w₁ → ∀ r, J w₁ (w₁.called o r))
    {p : Program Op Ret Mark σ ε α} (hp : p.Within F) {w₀ w : World Op Ret Mark σ} (hJ : J w₀ w)
    (h : p.Safe C Q E w₀ w) :
    p.Safe D (fun a w₀ w => Q a w₀ w ∧ J w₀ w) (fun e w₀ w => E e w₀ w ∧ J w₀ w) w₀ w := by
  have hs := hp w.state
  clear hp
  induction p generalizing w₀ w with
  | ret a => exact ⟨h, hJ⟩
  | raise e => exact ⟨h, hJ⟩
  | hang => exact hhang h
  | get k ih => exact ih w.state hJ h hs
  | put s' k ih => exact ih (hwrite _ _ _ hJ hs.1) h hs.2
  | emit m k ih =>
    intro ha
    have hemit := h (hassume _ _ ha)
    exact ⟨hensure _ _ hemit.1, ih (hmark _ _ _ hs.1 hJ) hemit.2 hs.2⟩
  | call o k ih =>
    obtain ⟨hguarantee, hafter⟩ := hcall w₀ w o hs.1 hJ
    refine ⟨hguarantee, fun w₁ hr r hans ha => ?_⟩
    have hanswer := h.2 w₁ (hrely _ _ hr) r (hready _ _ _ hans) (hassume _ _ ha)
    exact ⟨hensure _ _ hanswer.1, ih r (hafter w₁ hr r) hanswer.2 (hs.2 r _)⟩

/-- The frame rule for programs that run alone. -/
theorem Safe.frame {assume ensure : Trace Op Ret Mark → Event Op Ret Mark → Prop} {mayHang : Prop}
    {J : World Op Ret Mark σ → Prop}
    (hwrite : ∀ w s, J w → F.writes w.state s → J (w.write s))
    (hmark : ∀ w m, F.marks m → J w → assume w.trace (.mark m) →
      ensure w.trace (.mark m) ∧ J (w.mark m))
    (hcall : ∀ w o r, F.calls o → J w → assume w.trace (.called o r) →
      ensure w.trace (.called o r) ∧ J (w.called o r))
    (hhang : F.hangs → mayHang)
    {p : Program Op Ret Mark σ ε α} (hp : p.Within F) {w₀ w : World Op Ret Mark σ} (hJ : J w) :
    p.Safe (.alone assume ensure mayHang) (fun _ _ => J) (fun _ _ => J) w₀ w := by
  refine Safe.of_within (J := fun _ w => J w) (fun _ w s => hwrite w s)
    (fun _ w m => hmark w m) (fun _ w o ho hw => ⟨trivial, ?_⟩) hhang hp hJ
  rintro _ rfl r - ha
  exact hcall w o r ho hw ha

end Rules

end Program

end Effect
