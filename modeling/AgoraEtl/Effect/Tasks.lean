import AgoraEtl.Effect.Safety

/-!
# Two tasks over one state

A main program may start a helper task that works on the same state.  Tasks are scheduled
cooperatively: a task keeps the processor until its next call, and the other one can only run while
it waits for the answer.  A configuration therefore consists of the two parked tasks and the world,
and one turn answers the call of one task and runs it up to its next call.

The schedule is a list of turns and the answers come from a handler that sees the trace, so that all
schedules and all handlers together are all interleavings with all behaviours of the outside.

`System.Config.sound` is the rely-guarantee rule: two programs that are safe for matching contracts
meet their obligations along every run.
-/

namespace Effect

variable {Op : Type} {Ret : Op → Type} {Mark σ ε α : Type}

/-- A main program and the helper task it may start. -/
structure System (Op : Type) (Ret : Op → Type) (Mark σ ε α : Type) where
  main : Program Op Ret Mark σ ε α
  helper : Program Op Ret Mark σ ε Unit
  /-- The helper task has been created. -/
  spawned : σ → Bool
  /-- A call can be answered in this way. -/
  ready : σ → (o : Op) → Ret o → Bool

/-- A task is called on in turn. -/
inductive Turn : Type where
  | main
  | helper

namespace System

/-- The two parked tasks and the world; a helper that has not begun is not parked anywhere. -/
structure Config (Op : Type) (Ret : Op → Type) (Mark σ ε α : Type) where
  main : Program.Pause Op Ret Mark σ ε α
  helper : Option (Program.Pause Op Ret Mark σ ε Unit)
  world : World Op Ret Mark σ

/-- The main program has been run up to its first call. -/
def start (S : System Op Ret Mark σ ε α) (w : World Op Ret Mark σ) :
    Config Op Ret Mark σ ε α :=
  let (m, w') := S.main.advance w
  { main := m, helper := none, world := w' }

/-- Answer the call of a parked task and run the task up to its next call. -/
def resume {β : Type} (S : System Op Ret Mark σ ε α) (h : Handler Op Ret Mark) :
    Program.Pause Op Ret Mark σ ε β → World Op Ret Mark σ →
      Program.Pause Op Ret Mark σ ε β × World Op Ret Mark σ
  | .ended r, w => (.ended r, w)
  | .waiting o k, w =>
    bif S.ready w.state o (h w.trace o) then
      (k (h w.trace o)).advance (w.called o (h w.trace o))
    else (.waiting o k, w)

/-- A parked program was cut off. -/
def cutOff {β : Type} : Program.Pause Op Ret Mark σ ε β → Bool
  | .ended .hung => true
  | _ => false

/-- One of the tasks was cut off; nothing is observed from then on. -/
def Config.hung (c : Config Op Ret Mark σ ε α) : Bool :=
  cutOff c.main || c.helper.any cutOff

/-- One turn of a task. -/
def step (S : System Op Ret Mark σ ε α) (h : Handler Op Ret Mark)
    (c : Config Op Ret Mark σ ε α) (turn : Turn) : Config Op Ret Mark σ ε α :=
  bif c.hung then c else
  match turn, c.helper with
  | .main, _ =>
    let (m, w) := S.resume h c.main c.world
    { c with main := m, world := w }
  | .helper, none =>
    bif S.spawned c.world.state then
      let (p, w) := S.helper.advance c.world
      { c with helper := some p, world := w }
    else c
  | .helper, some p =>
    let (p', w) := S.resume h p c.world
    { c with helper := some p', world := w }

/-- The configuration after a schedule. -/
def exec (S : System Op Ret Mark σ ε α) (h : Handler Op Ret Mark)
    (c : Config Op Ret Mark σ ε α) (ts : List Turn) : Config Op Ret Mark σ ε α :=
  ts.foldl (S.step h) c

end System

/-! ## Parked programs -/

namespace Program

/-- Running a program up to its next call only appends to the trace. -/
theorem trace_prefix_advance (p : Program Op Ret Mark σ ε α) (w : World Op Ret Mark σ) :
    w.trace <+: (p.advance w).2.trace := by
  induction p generalizing w with
  | ret a => exact List.prefix_rfl
  | raise e => exact List.prefix_rfl
  | hang => exact List.prefix_rfl
  | get k ih => exact ih w.state w
  | put s k ih => exact ih (w.write s)
  | emit m k ih => exact (List.prefix_append _ _).trans (ih (w.mark m))
  | call o k ih => exact List.prefix_rfl

/-- A parked program is safe when it is safe to resume it after any interference. -/
def Pause.Safe (C : Contract Op Ret Mark σ)
    (Q : α → World Op Ret Mark σ → World Op Ret Mark σ → Prop)
    (E : ε → World Op Ret Mark σ → World Op Ret Mark σ → Prop) :
    Pause Op Ret Mark σ ε α → World Op Ret Mark σ → Prop
  | .ended (.returned a), w => ∃ w₀ w₁, Q a w₀ w₁ ∧ C.rely w₁ w
  | .ended (.raised e), w => ∃ w₀ w₁, E e w₀ w₁ ∧ C.rely w₁ w
  | .ended .hung, _ => C.mayHang
  | .waiting o k, w =>
    ∀ w₁, C.rely w w₁ → ∀ r, C.ready w₁.state o r → C.assume w₁.trace (.called o r) →
      C.ensure w₁.trace (.called o r) ∧ (k r).Safe C Q E w₁ (w₁.called o r)

variable {C : Contract Op Ret Mark σ}
  {Q : α → World Op Ret Mark σ → World Op Ret Mark σ → Prop}
  {E : ε → World Op Ret Mark σ → World Op Ret Mark σ → Prop}

/-- A parked program stays safe under interference. -/
theorem Pause.Safe.interfere (htrans : ∀ w₁ w₂ w₃, C.rely w₁ w₂ → C.rely w₂ w₃ → C.rely w₁ w₃)
    {p : Pause Op Ret Mark σ ε α} {w w' : World Op Ret Mark σ} (h : p.Safe C Q E w)
    (hr : C.rely w w') : p.Safe C Q E w' := by
  match p, h with
  | .ended (.returned a), ⟨w₀, w₁, hq, hw⟩ => exact ⟨w₀, w₁, hq, htrans _ _ _ hw hr⟩
  | .ended (.raised e), ⟨w₀, w₁, he, hw⟩ => exact ⟨w₀, w₁, he, htrans _ _ _ hw hr⟩
  | .ended .hung, h => exact h
  | .waiting o k, h => exact fun w₁ hw => h w₁ (htrans _ _ _ hr hw)

/-- Running a safe program up to its next call: the marks meet the obligation, and unless the
program was cut off the stretch meets the guarantee and the parked program is safe. -/
theorem Safe.advance_sound (hrefl : ∀ w, C.rely w w)
    (hQ : ∀ a w₀ w, Q a w₀ w → C.guarantee w₀ w) (hE : ∀ e w₀ w, E e w₀ w → C.guarantee w₀ w)
    {p : Program Op Ret Mark σ ε α} {w₀ w : World Op Ret Mark σ} (hs : p.Safe C Q E w₀ w) :
    ∃ t, (p.advance w).2.trace = w.trace ++ t ∧
      (Along C.assume w.trace t → Along C.ensure w.trace t ∧
        (p.advance w).1.Safe C Q E (p.advance w).2 ∧
        (System.cutOff (p.advance w).1 = false → C.guarantee w₀ (p.advance w).2)) := by
  induction p generalizing w with
  | ret a =>
    exact ⟨[], by simp [advance], fun _ => ⟨trivial, ⟨w₀, w, hs, hrefl w⟩, fun _ => hQ _ _ _ hs⟩⟩
  | raise e =>
    exact ⟨[], by simp [advance], fun _ => ⟨trivial, ⟨w₀, w, hs, hrefl w⟩, fun _ => hE _ _ _ hs⟩⟩
  | hang => exact ⟨[], by simp [advance], fun _ => ⟨trivial, hs, nofun⟩⟩
  | get k ih => exact ih w.state hs
  | put s k ih => exact ih hs
  | emit m k ih =>
    by_cases ha : C.assume w.trace (.mark m)
    · obtain ⟨t, ht, hpost⟩ := ih (hs ha).2
      refine ⟨.mark m :: t, ht.trans (by simp), fun hal => ?_⟩
      have hrest := hpost hal.2
      exact ⟨⟨(hs ha).1, hrest.1⟩, hrest.2⟩
    · obtain ⟨t, ht⟩ := trace_prefix_advance k (w.mark m)
      exact ⟨.mark m :: t, ht.symm.trans (by simp), fun hal => absurd hal.1 ha⟩
  | call o k ih => exact ⟨[], by simp [advance], fun _ => ⟨trivial, hs.2, fun _ => hs.1⟩⟩

end Program

/-! ## The rely-guarantee rule -/

namespace System

/-- Two contracts for the tasks of a system, matching each other, and the condition under which the
helper begins. -/
structure Agreement (S : System Op Ret Mark σ ε α) where
  /-- The contract of the main program. -/
  main : Contract Op Ret Mark σ
  /-- The contract of the helper. -/
  helper : Contract Op Ret Mark σ
  /-- What holds of the world until the helper begins. -/
  before : World Op Ret Mark σ → Prop
  /-- How the main program may have ended. -/
  mainReturns : α → World Op Ret Mark σ → World Op Ret Mark σ → Prop
  mainRaises : ε → World Op Ret Mark σ → World Op Ret Mark σ → Prop
  /-- How the helper may have ended. -/
  helperReturns : Unit → World Op Ret Mark σ → World Op Ret Mark σ → Prop
  helperRaises : ε → World Op Ret Mark σ → World Op Ret Mark σ → Prop
  main_ready : ∀ s o r, S.ready s o r = true → main.ready s o r
  helper_ready : ∀ s o r, S.ready s o r = true → helper.ready s o r
  assume_eq : helper.assume = main.assume
  ensure_eq : helper.ensure = main.ensure
  main_rely_refl : ∀ w, main.rely w w
  main_rely_trans : ∀ w₁ w₂ w₃, main.rely w₁ w₂ → main.rely w₂ w₃ → main.rely w₁ w₃
  helper_rely_refl : ∀ w, helper.rely w w
  helper_rely_trans : ∀ w₁ w₂ w₃, helper.rely w₁ w₂ → helper.rely w₂ w₃ → helper.rely w₁ w₃
  main_helper : ∀ w w', main.guarantee w w' → helper.rely w w'
  helper_main : ∀ w w', helper.guarantee w w' → main.rely w w'
  before_stable : ∀ w w', before w → main.guarantee w w' → before w'
  mainReturns_guarantee : ∀ a w₀ w, mainReturns a w₀ w → main.guarantee w₀ w
  mainRaises_guarantee : ∀ e w₀ w, mainRaises e w₀ w → main.guarantee w₀ w
  helperReturns_guarantee : ∀ a w₀ w, helperReturns a w₀ w → helper.guarantee w₀ w
  helperRaises_guarantee : ∀ e w₀ w, helperRaises e w₀ w → helper.guarantee w₀ w
  helper_safe : ∀ w, before w → S.spawned w.state = true →
    S.helper.Safe helper helperReturns helperRaises w w

/-- A system whose helper is never created is sound for every contract of its main program under which
it runs alone and keeps it so. -/
def Agreement.unspawned (S : System Op Ret Mark σ ε α) (C : Contract Op Ret Mark σ)
    (Q : α → World Op Ret Mark σ → World Op Ret Mark σ → Prop)
    (E : ε → World Op Ret Mark σ → World Op Ret Mark σ → Prop)
    (hready : ∀ s o r, S.ready s o r = true → C.ready s o r) (hrely : C.rely = Eq)
    (hguarantee : ∀ w w', C.guarantee w w' →
      S.spawned w.state = false → S.spawned w'.state = false)
    (hQ : ∀ a w₀ w, Q a w₀ w → C.guarantee w₀ w) (hE : ∀ e w₀ w, E e w₀ w → C.guarantee w₀ w) :
    S.Agreement where
  main := C
  helper := { C with rely := fun _ _ => True, guarantee := Eq }
  before := fun w => S.spawned w.state = false
  mainReturns := Q
  mainRaises := E
  helperReturns := fun _ => Eq
  helperRaises := fun _ => Eq
  main_ready := hready
  helper_ready := hready
  assume_eq := rfl
  ensure_eq := rfl
  main_rely_refl := fun _ => hrely ▸ rfl
  main_rely_trans := by
    rw [hrely]
    exact fun _ _ _ => Eq.trans
  helper_rely_refl := fun _ => trivial
  helper_rely_trans := fun _ _ _ _ _ => trivial
  main_helper := fun _ _ _ => trivial
  helper_main := by
    rw [hrely]
    exact fun _ _ h => h
  before_stable := fun w w' h hw => hguarantee w w' hw h
  mainReturns_guarantee := hQ
  mainRaises_guarantee := hE
  helperReturns_guarantee := fun _ _ _ h => h
  helperRaises_guarantee := fun _ _ _ h => h
  helper_safe := fun _ h hspawned => absurd (h.symm.trans hspawned) nofun

variable {S : System Op Ret Mark σ ε α}

/-- Both parked tasks are safe, and a helper that has not begun may begin. -/
structure Config.Safe (A : S.Agreement) (c : Config Op Ret Mark σ ε α) : Prop where
  main : c.main.Safe A.main A.mainReturns A.mainRaises c.world
  helper : ∀ p, c.helper = some p → p.Safe A.helper A.helperReturns A.helperRaises c.world
  before : c.helper = none → A.before c.world

/-- What a run has established: the obligation along the trace and, unless a task was cut off, the
safety of what is left. -/
def Config.Sound (A : S.Agreement) (t₀ : Trace Op Ret Mark) (c : Config Op Ret Mark σ ε α) : Prop :=
  ∃ t, c.world.trace = t₀ ++ t ∧
    (Along A.main.assume t₀ t → Along A.main.ensure t₀ t ∧ (c.hung = false → c.Safe A))

/-- Resuming a safe parked task that is not cut off by it. -/
theorem resume_sound {β : Type} {C : Contract Op Ret Mark σ}
    {Q : β → World Op Ret Mark σ → World Op Ret Mark σ → Prop}
    {E : ε → World Op Ret Mark σ → World Op Ret Mark σ → Prop}
    (hrefl : ∀ w, C.rely w w)
    (hQ : ∀ a w₀ w, Q a w₀ w → C.guarantee w₀ w) (hE : ∀ e w₀ w, E e w₀ w → C.guarantee w₀ w)
    (hready : ∀ s o r, S.ready s o r = true → C.ready s o r) (h : Handler Op Ret Mark)
    {p : Program.Pause Op Ret Mark σ ε β} {w : World Op Ret Mark σ} (hs : p.Safe C Q E w) :
    ∃ t, (S.resume h p w).2.trace = w.trace ++ t ∧
      (Along C.assume w.trace t → Along C.ensure w.trace t ∧
        (S.resume h p w).1.Safe C Q E (S.resume h p w).2 ∧
        (cutOff (S.resume h p w).1 = false →
          C.guarantee w (S.resume h p w).2 ∨ (S.resume h p w).2 = w)) := by
  match p, hs with
  | .ended r, hs => exact ⟨[], by simp [resume], fun _ => ⟨trivial, hs, fun _ => .inr rfl⟩⟩
  | .waiting o k, hs =>
    cases hans : S.ready w.state o (h w.trace o) with
    | false =>
      have hres : S.resume h (.waiting o k) w = (.waiting o k, w) := by
        simp [resume, hans]
      rw [hres]
      exact ⟨[], by simp, fun _ => ⟨trivial, hs, fun _ => .inr rfl⟩⟩
    | true =>
      have hres : S.resume h (.waiting o k) w =
          (k (h w.trace o)).advance (w.called o (h w.trace o)) := by
        simp [resume, hans]
      rw [hres]
      by_cases ha : C.assume w.trace (.called o (h w.trace o))
      · have hcall := hs w (hrefl w) (h w.trace o) (hready _ _ _ hans) ha
        obtain ⟨t, ht, hpost⟩ := hcall.2.advance_sound hrefl hQ hE
        refine ⟨.called o (h w.trace o) :: t, ht.trans (by simp), fun hal => ?_⟩
        have hrest := hpost hal.2
        exact ⟨⟨hcall.1, hrest.1⟩, hrest.2.1, fun hc => .inl (hrest.2.2 hc)⟩
      · obtain ⟨t, ht⟩ := Program.trace_prefix_advance (k (h w.trace o))
          (w.called o (h w.trace o))
        exact ⟨.called o (h w.trace o) :: t, ht.symm.trans (by simp),
          fun hal => absurd hal.1 ha⟩

/-- A new configuration is sound when its trace extends a sound one by events that establish it. -/
theorem Config.Sound.extend {A : S.Agreement} {t₀ : Trace Op Ret Mark}
    {c c' : Config Op Ret Mark σ ε α} (hc : c.Sound A t₀) (hh : c.hung = false)
    (hstep : c.Safe A → ∃ t, c'.world.trace = c.world.trace ++ t ∧
      (Along A.main.assume c.world.trace t →
        Along A.main.ensure c.world.trace t ∧ (c'.hung = false → c'.Safe A)))
    (hextends : c.world.trace <+: c'.world.trace) : c'.Sound A t₀ := by
  obtain ⟨t, ht, hpost⟩ := hc
  by_cases ha : Along A.main.assume t₀ t
  · obtain ⟨t', ht', hpost'⟩ := hstep ((hpost ha).2 hh)
    refine ⟨t ++ t', by rw [ht', ht, List.append_assoc], fun hal => ?_⟩
    rw [ht] at hpost'
    have hrest := hpost' (along_append.mp hal).2
    exact ⟨along_append.mpr ⟨(hpost ha).1, hrest.1⟩, hrest.2⟩
  · obtain ⟨t', ht'⟩ := hextends
    refine ⟨t ++ t', by rw [← ht', ht, List.append_assoc], fun hal => ?_⟩
    exact absurd (along_append.mp hal).1 ha

theorem trace_prefix_resume {β : Type} (h : Handler Op Ret Mark)
    (p : Program.Pause Op Ret Mark σ ε β) (w : World Op Ret Mark σ) :
    w.trace <+: (S.resume h p w).2.trace := by
  match p with
  | .ended r => exact List.prefix_rfl
  | .waiting o k =>
    cases hready : S.ready w.state o (h w.trace o) with
    | false => simp [resume, hready]
    | true =>
      have hadv := Program.trace_prefix_advance (k (h w.trace o)) (w.called o (h w.trace o))
      simpa [resume, hready] using (List.prefix_append _ _).trans hadv

/-- A turn of the main program keeps a run sound. -/
theorem sound_step_main {A : S.Agreement} {t₀ : Trace Op Ret Mark} (h : Handler Op Ret Mark)
    {c : Config Op Ret Mark σ ε α} (hc : c.Sound A t₀) : (S.step h c .main).Sound A t₀ := by
  cases hh : c.hung with
  | true => simpa [step, hh] using hc
  | false =>
    have hstep : S.step h c .main =
        { c with main := (S.resume h c.main c.world).1,
                 world := (S.resume h c.main c.world).2 } := by
      simp [step, hh]
    rw [hstep]
    refine hc.extend hh (fun hsafe => ?_) (trace_prefix_resume h _ _)
    obtain ⟨t, ht, hpost⟩ := resume_sound (S := S) A.main_rely_refl A.mainReturns_guarantee
      A.mainRaises_guarantee A.main_ready h hsafe.main
    refine ⟨t, ht, fun hal => ⟨(hpost hal).1, fun hhung => ?_⟩⟩
    obtain ⟨-, hmain, hguar⟩ := hpost hal
    have hcut : cutOff (S.resume h c.main c.world).1 = false := by
      simp only [Config.hung, Bool.or_eq_false_iff] at hhung
      exact hhung.1
    rcases hguar hcut with hg | hsame
    · refine ⟨hmain, fun p hp => ?_, fun hnone => A.before_stable _ _ (hsafe.before hnone) hg⟩
      exact (hsafe.helper p hp).interfere A.helper_rely_trans (A.main_helper _ _ hg)
    · simp only [hsame] at hmain ⊢
      exact ⟨hmain, hsafe.helper, hsafe.before⟩

/-- A turn of the helper keeps a run sound. -/
theorem sound_step_helper {A : S.Agreement} {t₀ : Trace Op Ret Mark} (h : Handler Op Ret Mark)
    {c : Config Op Ret Mark σ ε α} (hc : c.Sound A t₀) : (S.step h c .helper).Sound A t₀ := by
  cases hh : c.hung with
  | true => simpa [step, hh] using hc
  | false =>
    match hp : c.helper with
    | none =>
      cases hsp : S.spawned c.world.state with
      | false => simpa [step, hh, hp, hsp] using hc
      | true =>
        have hstep : S.step h c .helper =
            { c with helper := some (S.helper.advance c.world).1,
                     world := (S.helper.advance c.world).2 } := by
          simp [step, hh, hp, hsp]
        rw [hstep]
        refine hc.extend hh (fun hsafe => ?_) (Program.trace_prefix_advance _ _)
        obtain ⟨t, ht, hpost⟩ := (A.helper_safe _ (hsafe.before hp) hsp).advance_sound
          A.helper_rely_refl A.helperReturns_guarantee A.helperRaises_guarantee
        rw [A.assume_eq, A.ensure_eq] at hpost
        refine ⟨t, ht, fun hal => ⟨(hpost hal).1, fun hhung => ?_⟩⟩
        obtain ⟨-, hhelper, hguar⟩ := hpost hal
        have hcut : cutOff (S.helper.advance c.world).1 = false := by
          simp only [Config.hung, Bool.or_eq_false_iff] at hhung
          simpa using hhung.2
        refine ⟨?_, fun p hp' => ?_, nofun⟩
        · exact hsafe.main.interfere A.main_rely_trans (A.helper_main _ _ (hguar hcut))
        · obtain rfl : (S.helper.advance c.world).1 = p := by simpa using hp'
          exact hhelper
    | some p =>
      have hstep : S.step h c .helper =
          { c with helper := some (S.resume h p c.world).1,
                   world := (S.resume h p c.world).2 } := by
        simp [step, hh, hp]
      rw [hstep]
      refine hc.extend hh (fun hsafe => ?_) (trace_prefix_resume h _ _)
      obtain ⟨t, ht, hpost⟩ := resume_sound (S := S) A.helper_rely_refl A.helperReturns_guarantee
        A.helperRaises_guarantee A.helper_ready h (hsafe.helper p hp)
      rw [A.assume_eq, A.ensure_eq] at hpost
      refine ⟨t, ht, fun hal => ⟨(hpost hal).1, fun hhung => ?_⟩⟩
      obtain ⟨-, hhelper, hguar⟩ := hpost hal
      have hcut : cutOff (S.resume h p c.world).1 = false := by
        simp only [Config.hung, Bool.or_eq_false_iff] at hhung
        simpa using hhung.2
      rcases hguar hcut with hg | hsame
      · refine ⟨hsafe.main.interfere A.main_rely_trans (A.helper_main _ _ hg), fun q hq => ?_,
          nofun⟩
        obtain rfl : (S.resume h p c.world).1 = q := by simpa using hq
        exact hhelper
      · refine ⟨by rw [hsame]; exact hsafe.main, fun q hq => ?_, nofun⟩
        obtain rfl : (S.resume h p c.world).1 = q := by simpa using hq
        exact hhelper

/-- A run of turns keeps a run sound. -/
theorem sound_exec {A : S.Agreement} {t₀ : Trace Op Ret Mark} (h : Handler Op Ret Mark)
    (ts : List Turn) {c : Config Op Ret Mark σ ε α} (hc : c.Sound A t₀) :
    (S.exec h c ts).Sound A t₀ := by
  induction ts generalizing c with
  | nil => exact hc
  | cons turn ts ih =>
    cases turn with
    | main => exact ih (sound_step_main h hc)
    | helper => exact ih (sound_step_helper h hc)

/-- The rely-guarantee rule: if the main program is safe when it is started, every run of the system
is sound. -/
theorem sound_run (A : S.Agreement) (h : Handler Op Ret Mark) {w : World Op Ret Mark σ}
    (hbefore : A.before w) (hmain : S.main.Safe A.main A.mainReturns A.mainRaises w w)
    (ts : List Turn) : (S.exec h (S.start w) ts).Sound A w.trace := by
  refine sound_exec h ts ?_
  obtain ⟨t, ht, hpost⟩ := hmain.advance_sound A.main_rely_refl A.mainReturns_guarantee
    A.mainRaises_guarantee
  refine ⟨t, ht, fun hal => ⟨(hpost hal).1, fun hhung => ?_⟩⟩
  obtain ⟨-, hsafe, hguar⟩ := hpost hal
  have hcut : cutOff (S.main.advance w).1 = false := by
    simp only [Config.hung, Bool.or_eq_false_iff] at hhung
    exact hhung.1
  exact ⟨hsafe, nofun, fun _ => A.before_stable _ _ hbefore (hguar hcut)⟩

/-- A helper that is never created never begins. -/
theorem helper_exec {A : S.Agreement} (hassume : ∀ t e, A.main.assume t e)
    (hbefore : ∀ w, A.before w → S.spawned w.state = false) {t₀ : Trace Op Ret Mark}
    (h : Handler Op Ret Mark) (ts : List Turn) {c : Config Op Ret Mark σ ε α} (hc : c.Sound A t₀)
    (hnone : c.helper = none) : (S.exec h c ts).helper = none := by
  induction ts generalizing c with
  | nil => exact hnone
  | cons turn ts ih =>
    cases turn with
    | main =>
      refine ih (sound_step_main h hc) ?_
      cases hh : c.hung <;> simp [step, hh, hnone]
    | helper =>
      refine ih (sound_step_helper h hc) ?_
      cases hh : c.hung with
      | true => simp [step, hh, hnone]
      | false =>
        obtain ⟨t, -, hpost⟩ := hc
        have hsafe := (hpost (along_iff.mpr fun _ _ _ _ => hassume _ _)).2 hh
        simp [step, hh, hnone, hbefore _ (hsafe.before hnone)]

/-- A main program that has returned beside a helper that never begins has met its postcondition. -/
theorem returned_run {A : S.Agreement} (hassume : ∀ t e, A.main.assume t e)
    (hidle : ∀ w, A.before w → S.spawned w.state = false) (h : Handler Op Ret Mark)
    {w : World Op Ret Mark σ} (hbefore : A.before w)
    (hmain : S.main.Safe A.main A.mainReturns A.mainRaises w w) (ts : List Turn) {a : α}
    (ha : (S.exec h (S.start w) ts).main = .ended (.returned a)) :
    ∃ w₀ w₁, A.mainReturns a w₀ w₁ ∧ A.main.rely w₁ (S.exec h (S.start w) ts).world := by
  have hnone : (S.exec h (S.start w) ts).helper = none :=
    helper_exec hassume hidle h ts (sound_run A h hbefore hmain []) rfl
  obtain ⟨t, -, hpost⟩ := sound_run A h hbefore hmain ts
  have hhung : (S.exec h (S.start w) ts).hung = false := by
    rw [Config.hung, ha, hnone]
    rfl
  have hsafe := ((hpost (along_iff.mpr fun _ _ _ _ => hassume _ _)).2 hhung).main
  rw [ha] at hsafe
  exact hsafe

/-! ## Answers -/

/-- Running a program up to its next call answers none. -/
theorem answered_advance {β : Type} (h : Handler Op Ret Mark) (p : Program Op Ret Mark σ ε β)
    (w : World Op Ret Mark σ) :
    ∃ t, (p.advance w).2.trace = w.trace ++ t ∧ Along (Answered h) w.trace t := by
  induction p generalizing w with
  | ret a => exact ⟨[], by simp [Program.advance], trivial⟩
  | raise e => exact ⟨[], by simp [Program.advance], trivial⟩
  | hang => exact ⟨[], by simp [Program.advance], trivial⟩
  | get k ih => exact ih w.state w
  | put s k ih => exact ih (w.write s)
  | emit m k ih =>
    obtain ⟨t, ht, hal⟩ := ih (w.mark m)
    exact ⟨.mark m :: t, ht.trans (by simp), nofun, hal⟩
  | call o k ih => exact ⟨[], by simp [Program.advance], trivial⟩

theorem answered_resume {β : Type} (h : Handler Op Ret Mark)
    (p : Program.Pause Op Ret Mark σ ε β) (w : World Op Ret Mark σ) :
    ∃ t, (S.resume h p w).2.trace = w.trace ++ t ∧ Along (Answered h) w.trace t := by
  match p with
  | .ended r => exact ⟨[], by simp [resume], trivial⟩
  | .waiting o k =>
    cases hready : S.ready w.state o (h w.trace o) with
    | false => exact ⟨[], by simp [resume, hready], trivial⟩
    | true =>
      obtain ⟨t, ht, hal⟩ := answered_advance h (k (h w.trace o)) (w.called o (h w.trace o))
      refine ⟨.called o (h w.trace o) :: t, ?_, fun o' r he => ?_, hal⟩
      · simpa [resume, hready] using ht
      · cases he
        rfl

theorem answered_step (h : Handler Op Ret Mark) (c : Config Op Ret Mark σ ε α) (turn : Turn) :
    ∃ t, (S.step h c turn).world.trace = c.world.trace ++ t ∧
      Along (Answered h) c.world.trace t := by
  have hnone : ∃ t, c.world.trace = c.world.trace ++ t ∧ Along (Answered h) c.world.trace t :=
    ⟨[], (List.append_nil _).symm, trivial⟩
  unfold step
  cases c.hung with
  | true => exact hnone
  | false =>
    match turn, c.helper with
    | .main, _ => exact answered_resume h c.main c.world
    | .helper, none =>
      cases hspawned : S.spawned c.world.state with
      | true => simpa using answered_advance h S.helper c.world
      | false => simp
    | .helper, some p => exact answered_resume h p c.world

/-- Every call of a run of the system was answered by the handler. -/
theorem answered_exec (h : Handler Op Ret Mark) (w : World Op Ret Mark σ) (ts : List Turn) :
    ∃ t, (S.exec h (S.start w) ts).world.trace = w.trace ++ t ∧ Along (Answered h) w.trace t := by
  induction ts using List.reverseRecOn with
  | nil => exact answered_advance h S.main w
  | append_singleton ts turn ih =>
    obtain ⟨t, ht, hal⟩ := ih
    have hexec : S.exec h (S.start w) (ts ++ [turn]) =
        S.step h (S.exec h (S.start w) ts) turn := by
      unfold exec
      rw [List.foldl_append]
      rfl
    obtain ⟨t', ht', hal'⟩ := answered_step h (S.exec h (S.start w) ts) turn
    refine ⟨t ++ t', ?_, along_append.mpr ⟨hal, ?_⟩⟩
    · rw [hexec, ht', ht, List.append_assoc]
    · rwa [← ht]

end System

end Effect
