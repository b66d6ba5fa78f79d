import AgoraEtl.Effect.Tasks

/-!
# Guarded calls

Some calls of a program may only be made right after a check has succeeded.  A discipline says which
calls are guarded, which answers open the gate for them, and which calls may stand between the check
and the guarded call; every other call closes the gate again.

Respecting a discipline is a property of the program alone: it is closed under sequencing, attempts
and loops as long as every part respects it with a closed gate.  Where two such tasks are interleaved,
neither makes a guarded call unless its own gate is open.
-/

namespace Effect

variable {Op : Type} {Ret : Op → Type} {Mark σ ε α β : Type}

/-- Which calls need an open gate, which answers open it, and which calls leave it as it is. -/
structure Discipline (Op : Type) (Ret : Op → Type) where
  guarded : Op → Bool
  opens : (o : Op) → Ret o → Bool
  keeps : Op → Bool

namespace Discipline

variable (D : Discipline Op Ret)

/-- The gate after a call and its answer. -/
def after (gate : Bool) (o : Op) (r : Ret o) : Bool := D.opens o r || (gate && D.keeps o)

/-- The gate after the events. -/
def gateAfter (gate : Bool) : Trace Op Ret Mark → Bool
  | [] => gate
  | .mark _ :: t => gateAfter gate t
  | .called o r :: t => gateAfter (D.after gate o r) t

/-- No guarded call of the trace meets a closed gate. -/
def Respects (gate : Bool) : Trace Op Ret Mark → Prop
  | [] => True
  | .mark _ :: t => Respects gate t
  | .called o r :: t => (D.guarded o = true → gate = true) ∧ Respects (D.after gate o r) t

/-- The event is a guarded call. -/
def isGuarded : Event Op Ret Mark → Bool
  | .mark _ => false
  | .called o _ => D.guarded o

/-- The event opens the gate. -/
def isOpening : Event Op Ret Mark → Bool
  | .mark _ => false
  | .called o r => D.opens o r

/-- The event leaves an open gate open. -/
def isKeeping : Event Op Ret Mark → Bool
  | .mark _ => true
  | .called o _ => D.keeps o

variable {D}

/-- What opens a closed gate leaves an open one open. -/
theorem after_mono {gate : Bool} (o : Op) (r : Ret o) (h : D.after false o r = true) :
    D.after gate o r = true := by
  simp only [after, Bool.false_and, Bool.or_false] at h
  simp [after, h]

/-- A trace respects the discipline if its parts do, the second one from where the first ended. -/
theorem respects_append {gate : Bool} {t t' : Trace Op Ret Mark} :
    D.Respects gate (t ++ t') ↔ D.Respects gate t ∧ D.Respects (D.gateAfter gate t) t' := by
  induction t generalizing gate with
  | nil => simp [Respects, gateAfter]
  | cons e t ih =>
    cases e with
    | mark m => exact ih
    | called o r =>
      simp only [List.cons_append, Respects, gateAfter, ih, and_assoc]

/-- The gate is moved by one part after the other. -/
theorem gateAfter_append (gate : Bool) (t t' : Trace Op Ret Mark) :
    D.gateAfter gate (t ++ t') = D.gateAfter (D.gateAfter gate t) t' := by
  induction t generalizing gate with
  | nil => rfl
  | cons e t ih =>
    cases e with
    | mark m => exact ih gate
    | called o r => exact ih _

/-- An open gate was opened by some answer, and every call since then has kept it open. -/
theorem exists_opening {t : Trace Op Ret Mark} (h : D.gateAfter false t = true) :
    ∃ before e since, t = before ++ e :: since ∧ D.isOpening e = true ∧
      ∀ e' ∈ since, D.isKeeping e' = true := by
  induction t using List.reverseRecOn with
  | nil => exact absurd h (by simp [gateAfter])
  | append_singleton t e ih =>
    rw [gateAfter_append] at h
    cases e with
    | mark m =>
      obtain ⟨before, e, since, rfl, hopen, hkeep⟩ := ih h
      refine ⟨before, e, since ++ [.mark m], by simp, hopen, fun e' he' => ?_⟩
      rcases List.mem_append.mp he' with he' | he'
      · exact hkeep e' he'
      · rw [List.mem_singleton.mp he']
        rfl
    | called o r =>
      by_cases hopens : D.opens o r = true
      · exact ⟨t, .called o r, [], rfl, hopens, fun _ he' => absurd he' List.not_mem_nil⟩
      · simp only [gateAfter, after, hopens, Bool.false_or, Bool.and_eq_true] at h
        obtain ⟨before, e, since, rfl, hopen, hkeep⟩ := ih h.1
        refine ⟨before, e, since ++ [.called o r], by simp, hopen, fun e' he' => ?_⟩
        rcases List.mem_append.mp he' with he' | he'
        · exact hkeep e' he'
        · rw [List.mem_singleton.mp he']
          exact h.2

/-- Every guarded call of a trace that starts with a closed gate has an opening answer before it, and
only calls in between that keep the gate open. -/
theorem Respects.opened_before {t t₁ t₂ : Trace Op Ret Mark} {e : Event Op Ret Mark}
    (h : D.Respects false t) (ht : t = t₁ ++ e :: t₂) (he : D.isGuarded e = true) :
    ∃ before e' since, t₁ = before ++ e' :: since ∧ D.isOpening e' = true ∧
      ∀ e'' ∈ since, D.isKeeping e'' = true := by
  subst ht
  obtain ⟨-, h⟩ := respects_append.mp h
  cases e with
  | mark m => exact absurd he (by simp [isGuarded])
  | called o r => exact exists_opening (h.1 he)

/-- Without an opening answer an open gate lets one guarded call through, and a closed one none, when
a guarded call closes the gate behind itself. -/
theorem Respects.countP_le (hkeeps : ∀ o, D.guarded o = true → D.keeps o = false)
    {gate : Bool} {t : Trace Op Ret Mark} (h : D.Respects gate t)
    (hopen : ∀ e ∈ t, D.isOpening e = false) :
    t.countP D.isGuarded ≤ gate.toNat := by
  induction t generalizing gate with
  | nil => simp
  | cons e t ih =>
    have hrest : ∀ e ∈ t, D.isOpening e = false := fun e he => hopen e (List.mem_cons_of_mem _ he)
    cases e with
    | mark m =>
      have hcount : t.countP D.isGuarded ≤ gate.toNat := ih h hrest
      simpa [isGuarded] using hcount
    | called o r =>
      have hclosed : D.opens o r = false := hopen _ List.mem_cons_self
      have hcount := ih h.2 hrest
      rw [List.countP_cons]
      by_cases hg : D.guarded o = true
      · rw [after, hclosed, hkeeps o hg] at hcount
        simp_all [isGuarded, h.1 hg]
      · have hle : (D.after gate o r).toNat ≤ gate.toNat := by
          cases gate <;> simp [after, hclosed, Bool.toNat_le]
        simp only [isGuarded, hg]
        simpa using hcount.trans hle

end Discipline

/-! ## Programs -/

namespace Program

variable {D : Discipline Op Ret}

/-- The program makes no guarded call at a closed gate, whatever it is answered and whatever becomes
of the state in the meantime. -/
def GuardedFrom (D : Discipline Op Ret) : Bool → Program Op Ret Mark σ ε α → Prop
  | _, ret _ => True
  | _, raise _ => True
  | _, hang => True
  | gate, get k => ∀ s, (k s).GuardedFrom D gate
  | gate, put _ k => k.GuardedFrom D gate
  | gate, emit _ k => k.GuardedFrom D gate
  | gate, call o k => (D.guarded o = true → gate = true) ∧
      ∀ r, (k r).GuardedFrom D (D.after gate o r)

/-- The program respects the discipline when it starts with a closed gate. -/
abbrev Guarded (D : Discipline Op Ret) (p : Program Op Ret Mark σ ε α) : Prop :=
  p.GuardedFrom D false

/-- An open gate does no harm. -/
theorem Guarded.from {p : Program Op Ret Mark σ ε α} (h : p.Guarded D) (gate : Bool) :
    p.GuardedFrom D gate := by
  cases gate with
  | false => exact h
  | true =>
    suffices hmono : ∀ gate gate', (gate = true → gate' = true) → p.GuardedFrom D gate →
        p.GuardedFrom D gate' from hmono false true (by simp) h
    clear h
    induction p with
    | ret a => exact fun _ _ _ _ => trivial
    | raise e => exact fun _ _ _ _ => trivial
    | hang => exact fun _ _ _ _ => trivial
    | get k ih => exact fun gate gate' hle h s => ih s gate gate' hle (h s)
    | put s k ih => exact fun gate gate' hle h => ih gate gate' hle h
    | emit m k ih => exact fun gate gate' hle h => ih gate gate' hle h
    | call o k ih =>
      refine fun gate gate' hle h => ⟨fun hg => hle (h.1 hg), fun r => ?_⟩
      refine ih r _ _ (fun hopen => ?_) (h.2 r)
      cases gate with
      | false => exact Discipline.after_mono o r hopen
      | true => rwa [hle rfl]

section Rules

variable {gate : Bool}

/-- Returning makes no call. -/
@[simp] theorem guarded_ret (a : α) : (ret a : Program Op Ret Mark σ ε α).GuardedFrom D gate :=
  trivial

/-- Nor does raising. -/
@[simp] theorem guarded_raise (e : ε) : (raise e : Program Op Ret Mark σ ε α).GuardedFrom D gate :=
  trivial

/-- Nor does reading the state. -/
@[simp] theorem guarded_read : (read : Program Op Ret Mark σ ε σ).GuardedFrom D gate :=
  fun _ => trivial

/-- Nor does changing it. -/
@[simp] theorem guarded_modify (f : σ → σ) :
    (modify f : Program Op Ret Mark σ ε Unit).GuardedFrom D gate := fun _ => trivial

/-- Nor does a note. -/
@[simp] theorem guarded_note (m : Mark) :
    (note m : Program Op Ret Mark σ ε Unit).GuardedFrom D gate := trivial

/-- Nor does passing on an outcome. -/
@[simp] theorem guarded_ofExcept (r : Except ε α) :
    (ofExcept r : Program Op Ret Mark σ ε α).GuardedFrom D gate := by
  cases r <;> trivial

/-- A call that needs no open gate. -/
theorem guarded_perform {o : Op} (h : D.guarded o = false) :
    (perform o : Program Op Ret Mark σ ε (Ret o)).GuardedFrom D gate :=
  ⟨fun hg => absurd hg (by simp [h]), fun _ => trivial⟩

/-- In a sequence the second part starts with a closed gate. -/
theorem guarded_bind {p : Program Op Ret Mark σ ε α} {f : α → Program Op Ret Mark σ ε β}
    (hp : p.GuardedFrom D gate) (hf : ∀ a, (f a).Guarded D) : (p >>= f).GuardedFrom D gate := by
  change (p.bind f).GuardedFrom D gate
  induction p generalizing gate with
  | ret a => exact (hf a).from gate
  | raise e => trivial
  | hang => trivial
  | get k ih => exact fun s => ih s (hp s)
  | put s k ih => exact ih hp
  | emit m k ih => exact ih hp
  | call o k ih => exact ⟨hp.1, fun r => ih r (hp.2 r)⟩

/-- An attempt makes the calls of its program. -/
theorem guarded_attempt {p : Program Op Ret Mark σ ε α} (hp : p.GuardedFrom D gate) :
    p.attempt.GuardedFrom D gate := by
  induction p generalizing gate with
  | ret a => trivial
  | raise e => trivial
  | hang => trivial
  | get k ih => exact fun s => ih s (hp s)
  | put s k ih => exact ih hp
  | emit m k ih => exact ih hp
  | call o k ih => exact ⟨hp.1, fun r => ih r (hp.2 r)⟩

/-- Both branches have to respect the discipline. -/
theorem guarded_ite {c : Prop} [Decidable c] {p q : Program Op Ret Mark σ ε α}
    (hp : p.GuardedFrom D gate) (hq : q.GuardedFrom D gate) :
    (if c then p else q).GuardedFrom D gate := by
  split
  · exact hp
  · exact hq

/-- A loop respects it if each round does from a closed gate. -/
theorem guarded_iterate {κ : Type} {body : κ → Program Op Ret Mark σ ε (κ ⊕ α)}
    (hbody : ∀ k, (body k).Guarded D) (n : ℕ) (k : κ) : (iterate body n k).Guarded D := by
  induction n generalizing k with
  | zero => trivial
  | succ n ih =>
    refine guarded_bind (hbody k) fun r => ?_
    cases r with
    | inl k' => exact ih k'
    | inr a => trivial

end Rules

/-- A parked program that respects the discipline when it goes on. -/
def Pause.GuardedFrom (D : Discipline Op Ret) (gate : Bool) : Pause Op Ret Mark σ ε α → Prop
  | .ended _ => True
  | .waiting o k => (D.guarded o = true → gate = true) ∧ ∀ r, (k r).GuardedFrom D (D.after gate o r)

/-- Running a program up to its next call makes no call. -/
theorem GuardedFrom.advance {gate : Bool} {p : Program Op Ret Mark σ ε α}
    (hp : p.GuardedFrom D gate) (w : World Op Ret Mark σ) :
    (p.advance w).1.GuardedFrom D gate ∧
      ∃ t, (p.advance w).2.trace = w.trace ++ t ∧ D.Respects gate t ∧ D.gateAfter gate t = gate := by
  induction p generalizing w with
  | ret a => exact ⟨trivial, [], by simp [Program.advance], trivial, rfl⟩
  | raise e => exact ⟨trivial, [], by simp [Program.advance], trivial, rfl⟩
  | hang => exact ⟨trivial, [], by simp [Program.advance], trivial, rfl⟩
  | get k ih => exact ih w.state (hp w.state) w
  | put s k ih => exact ih hp (w.write s)
  | emit m k ih =>
    obtain ⟨hrest, t, ht, hrespects⟩ := ih hp (w.mark m)
    exact ⟨hrest, .mark m :: t, ht.trans (by simp), hrespects⟩
  | call o k ih => exact ⟨hp, [], by simp [Program.advance], trivial, rfl⟩

end Program

/-! ## Two tasks -/

deriving instance DecidableEq for Turn

namespace System

variable {D : Discipline Op Ret} {S : System Op Ret Mark σ ε α} {h : Handler Op Ret Mark}

/-- The events of a schedule, each with the task that left it. -/
def log (S : System Op Ret Mark σ ε α) (h : Handler Op Ret Mark) :
    Config Op Ret Mark σ ε α → List Turn → List (Turn × Event Op Ret Mark)
  | _, [] => []
  | c, turn :: turns =>
    ((S.step h c turn).world.trace.drop c.world.trace.length).map (fun e => (turn, e)) ++
      S.log h (S.step h c turn) turns

/-- The events of one task. -/
def eventsOf (turn : Turn) (l : List (Turn × Event Op Ret Mark)) : Trace Op Ret Mark :=
  l.filterMap fun entry => if entry.1 = turn then some entry.2 else none

/-- The events of a task are those of one part and then those of the other. -/
@[simp] theorem eventsOf_append (turn : Turn) (l l' : List (Turn × Event Op Ret Mark)) :
    eventsOf turn (l ++ l') = eventsOf turn l ++ eventsOf turn l' := List.filterMap_append

/-- Events of the task are kept. -/
@[simp] theorem eventsOf_map_self (turn : Turn) (t : Trace Op Ret Mark) :
    eventsOf turn (t.map fun e => (turn, e)) = t := by
  simp [eventsOf, List.filterMap_map]

/-- Those of the other task are not. -/
theorem eventsOf_map_other {turn turn' : Turn} (hne : turn' ≠ turn) (t : Trace Op Ret Mark) :
    eventsOf turn (t.map fun e => (turn', e)) = [] := by
  simp [eventsOf, hne]

/-- The events of a task are the entries with its name. -/
theorem mem_eventsOf {turn : Turn} {l : List (Turn × Event Op Ret Mark)} {e : Event Op Ret Mark} :
    e ∈ eventsOf turn l ↔ (turn, e) ∈ l := by
  unfold eventsOf
  rw [List.mem_filterMap]
  constructor
  · rintro ⟨⟨turn', e'⟩, hmem, hevent⟩
    obtain ⟨rfl, rfl⟩ : turn' = turn ∧ e' = e := by simpa using hevent
    exact hmem
  · exact fun hmem => ⟨(turn, e), hmem, if_pos rfl⟩

/-- Where the events of one task are split, the whole log can be split. -/
theorem eventsOf_eq_append_cons {turn : Turn} {l : List (Turn × Event Op Ret Mark)}
    {t₁ t₂ : Trace Op Ret Mark} {e : Event Op Ret Mark} (h : eventsOf turn l = t₁ ++ e :: t₂) :
    ∃ l₁ l₂, l = l₁ ++ (turn, e) :: l₂ ∧ eventsOf turn l₁ = t₁ ∧ eventsOf turn l₂ = t₂ := by
  obtain ⟨l₁, l₂, rfl, h₁, h₂⟩ := List.filterMap_eq_append_iff.mp h
  obtain ⟨skipped, ⟨turn', e'⟩, l₃, rfl, hskipped, hevent, h₃⟩ := List.filterMap_eq_cons_iff.mp h₂
  obtain ⟨rfl, rfl⟩ : turn' = turn ∧ e' = e := by simpa using hevent
  refine ⟨l₁ ++ skipped, l₃, (List.append_assoc _ _ _).symm, ?_, h₃⟩
  rw [eventsOf_append, show eventsOf turn' skipped = [] from List.filterMap_eq_nil_iff.mpr hskipped,
    List.append_nil]
  exact h₁

/-- Every event is one of the two tasks. -/
theorem countP_map_snd (p : Event Op Ret Mark → Bool) (l : List (Turn × Event Op Ret Mark)) :
    (l.map Prod.snd).countP p = (eventsOf .main l).countP p + (eventsOf .helper l).countP p := by
  induction l with
  | nil => rfl
  | cons entry l ih =>
    obtain ⟨turn, e⟩ := entry
    rw [List.map_cons, List.countP_cons, ih]
    cases turn with
    | main =>
      rw [show eventsOf .main ((.main, e) :: l) = e :: eventsOf .main l from rfl,
        show eventsOf .helper ((.main, e) :: l) = eventsOf .helper l from rfl, List.countP_cons]
      dsimp only
      omega
    | helper =>
      rw [show eventsOf .main ((.helper, e) :: l) = eventsOf .main l from rfl,
        show eventsOf .helper ((.helper, e) :: l) = e :: eventsOf .helper l from rfl, List.countP_cons]
      dsimp only
      omega

/-- The task of a configuration respects the discipline from the state of its gate; a helper that has
not begun has a closed one. -/
def Config.TaskGuarded (D : Discipline Op Ret) (S : System Op Ret Mark σ ε α) (gate : Bool)
    (c : Config Op Ret Mark σ ε α) : Turn → Prop
  | .main => c.main.GuardedFrom D gate
  | .helper => (c.helper = none ∧ S.helper.GuardedFrom D gate) ∨
      ∃ p, c.helper = some p ∧ p.GuardedFrom D gate

/-- Resuming a parked task adds events that respect the discipline. -/
theorem guarded_resume {gate : Bool} {p : Program.Pause Op Ret Mark σ ε β}
    (hp : p.GuardedFrom D gate) (w : World Op Ret Mark σ) :
    ∃ t, (S.resume h p w).2.trace = w.trace ++ t ∧ D.Respects gate t ∧
      (S.resume h p w).1.GuardedFrom D (D.gateAfter gate t) := by
  cases p with
  | ended r => exact ⟨[], by simp [resume], trivial, trivial⟩
  | waiting o k =>
    cases hready : S.ready w.state o (h w.trace o) with
    | false =>
      simp only [resume, hready, cond_false]
      exact ⟨[], by simp, trivial, hp⟩
    | true =>
      simp only [resume, hready, cond_true]
      obtain ⟨hrest, t, ht, hrespects, hgate⟩ :=
        (hp.2 (h w.trace o)).advance (w.called o (h w.trace o))
      refine ⟨.called o (h w.trace o) :: t, ht.trans (by simp), ⟨hp.1, hrespects⟩, ?_⟩
      rw [show D.gateAfter gate (.called o (h w.trace o) :: t) = _ from hgate]
      exact hrest

/-- One turn of a task adds events that respect the discipline. -/
theorem taskGuarded_step_self {gate : Bool} {turn : Turn} {c : Config Op Ret Mark σ ε α}
    (hc : c.TaskGuarded D S gate turn) :
    ∃ t, (S.step h c turn).world.trace = c.world.trace ++ t ∧ D.Respects gate t ∧
      (S.step h c turn).TaskGuarded D S (D.gateAfter gate t) turn := by
  cases hh : c.hung with
  | true =>
    rw [show S.step h c turn = c by simp [step, hh]]
    exact ⟨[], by simp, trivial, hc⟩
  | false =>
    cases turn with
    | main =>
      obtain ⟨t, ht, hrespects, hmain⟩ := guarded_resume (S := S) (h := h) hc c.world
      exact ⟨t, by simpa [step, hh] using ht, hrespects,
        by simpa [step, hh, Config.TaskGuarded] using hmain⟩
    | helper =>
      rcases hc with ⟨hnone, hhelper⟩ | ⟨p, hp, hpaused⟩
      · cases hsp : S.spawned c.world.state with
        | false =>
          rw [show S.step h c .helper = c by simp [step, hh, hnone, hsp]]
          exact ⟨[], by simp, trivial, .inl ⟨hnone, hhelper⟩⟩
        | true =>
          obtain ⟨hrest, t, ht, hrespects, hgate⟩ := hhelper.advance c.world
          refine ⟨t, by simpa [step, hh, hnone, hsp] using ht, hrespects, ?_⟩
          rw [hgate]
          exact .inr ⟨_, by simp [step, hh, hnone, hsp], hrest⟩
      · obtain ⟨t, ht, hrespects, hrest⟩ := guarded_resume (S := S) (h := h) hpaused c.world
        exact ⟨t, by simpa [step, hh, hp] using ht, hrespects,
          .inr ⟨_, by simp [step, hh, hp], hrest⟩⟩

/-- A turn of the other task leaves a parked task alone. -/
theorem taskGuarded_step_other {gate : Bool} {turn turn' : Turn} (hne : turn' ≠ turn)
    {c : Config Op Ret Mark σ ε α} (hc : c.TaskGuarded D S gate turn) :
    (S.step h c turn').TaskGuarded D S gate turn := by
  cases hh : c.hung with
  | true => rwa [show S.step h c turn' = c by simp [step, hh]]
  | false =>
    cases turn with
    | main =>
      cases turn' with
      | main => exact absurd rfl hne
      | helper =>
        cases hp : c.helper with
        | none => 
          cases hsp : S.spawned c.world.state <;>
            simpa [step, hh, hp, hsp, Config.TaskGuarded] using hc
        | some p => simpa [step, hh, hp, Config.TaskGuarded] using hc
    | helper =>
      cases turn' with
      | main => simpa [step, hh, Config.TaskGuarded] using hc
      | helper => exact absurd rfl hne

/-- Along every schedule the calls of a guarded task pass its own gate. -/
theorem respects_log {gate : Bool} {turn : Turn} {c : Config Op Ret Mark σ ε α}
    (hc : c.TaskGuarded D S gate turn) (turns : List Turn) :
    D.Respects gate (eventsOf turn (S.log h c turns)) := by
  induction turns generalizing c gate with
  | nil => trivial
  | cons turn' turns ih =>
    rw [log, eventsOf_append]
    by_cases hturn : turn' = turn
    · subst hturn
      obtain ⟨t, ht, hrespects, hrest⟩ := taskGuarded_step_self (h := h) hc
      rw [eventsOf_map_self, ht, List.drop_left]
      exact Discipline.respects_append.mpr ⟨hrespects, ih hrest⟩
    · rw [eventsOf_map_other hturn, List.nil_append]
      exact ih (taskGuarded_step_other hturn hc)

/-- Two guarded programs respect the discipline, each with its own gate, along every schedule. -/
theorem respects_log_start (hmain : S.main.Guarded D) (hhelper : S.helper.Guarded D)
    (w : World Op Ret Mark σ) (turns : List Turn) (turn : Turn) :
    D.Respects false (eventsOf turn (S.log h (S.start w) turns)) := by
  refine respects_log ?_ turns
  cases turn with
  | main => exact (hmain.advance w).1
  | helper => exact .inl ⟨rfl, hhelper⟩

end System

end Effect
