import Mathlib.Algebra.BigOperators.Group.List.Basic
import Mathlib.Algebra.GroupWithZero.Nat
import AgoraEtl.Delivery.Frame

/-!
# The cadence of checkpoint saves

`shouldSave` asks whether the number of handled records is a multiple of `checkpointEvery`.  A batch
moves that number by its whole size, so it can step over a multiple without landing on it, and then
nothing is saved.  `cadence_iff` says that the cadence bounds the backlog exactly when every
operation that crosses a multiple lands on one.
-/

namespace AgoraEtl

open Effect Program

variable {ℓ α χ : Type}

/-! ## Sequences of saves -/

/-- A save for a single record, or for a batch of records. -/
inductive SaveOp (χ : Type) : Type where
  | single (value : χ)
  | batch (value : χ) (size : ℕ)
  deriving DecidableEq, Repr

namespace SaveOp

/-- The checkpoint of the operation. -/
def value : SaveOp χ → χ
  | single v => v
  | batch v _ => v

/-- The number of records the operation handles. -/
def size : SaveOp χ → ℕ
  | single _ => 1
  | batch _ n => n

end SaveOp

/-- The number of records handled by a sequence of operations. -/
def handled (ops : List (SaveOp χ)) : ℕ := (ops.map SaveOp.size).sum

@[simp] theorem handled_nil : handled ([] : List (SaveOp χ)) = 0 := rfl

@[simp] theorem handled_append (ops ops' : List (SaveOp χ)) :
    handled (ops ++ ops') = handled ops + handled ops' := by
  simp [handled]

@[simp] theorem handled_cons (op : SaveOp χ) (ops : List (SaveOp χ)) :
    handled (op :: ops) = op.size + handled ops := by
  simp [handled]

/-- Going from `count` to `count + size` passes a multiple of `n`. -/
def Crosses (n count size : ℕ) : Prop := count / n < (count + size) / n

instance (n count size : ℕ) : Decidable (Crosses n count size) :=
  inferInstanceAs (Decidable (_ < _))

namespace DeliveryEngine

variable (d : DeliveryEngine α χ) [DecidableEq χ]

/-- Carry out one save. -/
def runSave : SaveOp χ → Delivery ℓ α χ Unit
  | .single value => d.saveCheckpoint (some value)
  | .batch value size => d.saveBatchCheckpoint (some value) size

/-- Carry out saves in order. -/
def runSaves : List (SaveOp χ) → Delivery ℓ α χ Unit
  | [] => pure ()
  | op :: ops => do
    d.runSave op
    runSaves ops

/-- The store accepts saves: it answers, and the run fence, if there is one, is held. -/
structure AcceptsSaves (h : Environment α χ) : Prop where
  store : d.checkpointStore = true
  fence : d.runFence = true → ∀ t, h t (.await .validateFence) = .ok true
  save : ∀ t key checkpoint, h t (.await (.saveCheckpoint key checkpoint)) = .ok ()

/-! ## What one save does -/

section Step

variable {d} {h : Environment α χ} (hd : d.AcceptsSaves h)

omit [DecidableEq χ] in
include hd in
/-- The fence is active. -/
theorem safe_assertRunFenceActive_accepted {w₀ w : RunWorld ℓ α χ} :
    (d.assertRunFenceActive : Delivery ℓ α χ Unit).Safe (.answered h False)
      (fun _ _ w' => w'.state = w.state ∧ saves w'.trace = saves w.trace) (fun _ _ _ => False)
      w₀ w := by
  unfold assertRunFenceActive
  split
  · rename_i hfence
    unfold invoke
    rw [safe_bind, safe_bind, safe_perform_answered, hd.fence hfence]
    refine ⟨rfl, ?_⟩
    rw [World.called_trace, saves_append, saves_called rfl, List.append_nil]
  · exact ⟨rfl, rfl⟩

omit [DecidableEq χ] in
include hd in
/-- A checkpoint that is persisted is saved and marked. -/
theorem safe_persistCheckpoint_accepted (checkpoint : Checkpoint χ) (batchSize : ℕ)
    {v w : RunWorld ℓ α χ} :
    (d.persistCheckpoint checkpoint batchSize : Delivery ℓ α χ Unit).Safe (.answered h False)
      (fun _ _ w' => saves w'.trace = saves w.trace ++ [checkpoint.value] ∧
        w'.state.checkpointState = w.state.checkpointState.markSaved checkpoint.value)
      (fun _ _ _ => False) v w := by
  unfold persistCheckpoint
  rw [safe_bind, safe_catchException, safe_bind]
  refine (safe_assertRunFenceActive_accepted hd).mono (fun _ w₁ w' hw' => ?_) fun _ _ _ he => he.elim
  obtain ⟨hstate, hsaves⟩ := hw'
  have hstore : ¬ d.checkpointStore = false := by rw [hd.store]; nofun
  rw [if_neg hstore]
  unfold invoke
  rw [safe_bind, safe_bind, safe_perform_answered, hd.save]
  change _ ∧ _
  refine ⟨?_, ?_⟩
  · simp only [World.write_trace, World.called_trace, saves_append, hsaves]
    rfl
  · simp only [World.write_state, World.called_state, hstate]

/-- What a save does to the checkpoint state and to the saved checkpoints. -/
structure Saved (d : DeliveryEngine α χ) (op : SaveOp χ) (w w' : RunWorld ℓ α χ) : Prop where
  count : w'.state.checkpointState.processedCount =
    w.state.checkpointState.processedCount + op.size
  last : w'.state.checkpointState.lastSavedValue = w.state.checkpointState.lastSavedValue ∨
    w'.state.checkpointState.lastSavedValue = some op.value
  saves : AgoraEtl.saves w'.trace = AgoraEtl.saves w.trace ++
    if 0 < op.size ∧ (w.state.checkpointState.processedCount + op.size) % d.checkpointEvery = 0
    then [op.value] else []

include hd in
/-- Counting records and persisting the checkpoint when a save is due. -/
theorem safe_countProcessed_accepted (op : SaveOp χ) (hsize : 0 < op.size)
    {w₀ w : RunWorld ℓ α χ}
    (hfresh : w.state.checkpointState.lastSavedValue ≠ some op.value) (batchSize : ℕ) :
    (do
      let checkpoint ← d.countProcessed op.value op.size
      d.persistPending (checkpoint.map fun c => (c, batchSize)) :
      Delivery ℓ α χ Unit).Safe (.answered h False) (fun _ _ w' => Saved d op w w')
      (fun _ _ _ => False) w₀ w := by
  unfold countProcessed CheckpointState.shouldSave CheckpointState.incrementBy
  rw [safe_bind, safe_bind, safe_modify, safe_bind, safe_read]
  simp only [World.write_state, eq_false hfresh, if_false]
  split
  · rename_i hdue
    refine (safe_persistCheckpoint_accepted hd _ _).mono (fun _ _ w' hw' => ?_)
      fun _ _ _ he => he.elim
    obtain ⟨hsaves, hstate⟩ := hw'
    refine ⟨?_, .inr ?_, ?_⟩
    · rw [hstate]
      rfl
    · rw [hstate]
      rfl
    · rw [if_pos ⟨hsize, by simpa using hdue⟩]
      exact hsaves
  · rename_i hdue
    refine ⟨rfl, .inl rfl, ?_⟩
    rw [if_neg fun hmod => hdue (by simpa using hmod.2), List.append_nil]
    rfl

include hd in
/-- The step lemma: a fresh checkpoint is saved when the operation lands on a multiple. -/
theorem safe_runSave (op : SaveOp χ) {w₀ w : RunWorld ℓ α χ}
    (hfresh : w.state.checkpointState.lastSavedValue ≠ some op.value) :
    (d.runSave op : Delivery ℓ α χ Unit).Safe (.answered h False)
      (fun _ _ w' => Saved d op w w') (fun _ _ _ => False) w₀ w := by
  cases op with
  | single value =>
    unfold runSave saveCheckpoint prepareCheckpoint
    rw [hd.store]
    exact safe_countProcessed_accepted hd (.single value) Nat.one_pos hfresh 1
  | batch value size =>
    unfold runSave saveBatchCheckpoint
    rw [hd.store]
    dsimp only
    split
    · rename_i hsize
      refine ⟨?_, .inl rfl, ?_⟩
      · rw [SaveOp.size, hsize]
        rfl
      · rw [if_neg fun hpos => hpos.1.ne' hsize, List.append_nil]
    · rename_i hsize
      exact safe_countProcessed_accepted hd (.batch value size) (Nat.pos_of_ne_zero hsize) hfresh
        size

/-! ## What a sequence of saves does -/

/-- The checkpoints that a sequence of saves leaves, from a number of handled records on: those of the
operations that land on a multiple. -/
def landing (n : ℕ) : ℕ → List (SaveOp χ) → List χ
  | _, [] => []
  | count, op :: ops =>
    (if 0 < op.size ∧ (count + op.size) % n = 0 then [op.value] else []) ++
      landing n (count + op.size) ops

omit [DecidableEq χ] in
theorem landing_append (n count : ℕ) (ops ops' : List (SaveOp χ)) :
    landing n count (ops ++ ops') = landing n count ops ++ landing n (count + handled ops) ops' := by
  induction ops generalizing count with
  | nil => simp [landing]
  | cons op ops ih => simp only [List.cons_append, landing, ih, List.append_assoc, handled_cons,
      Nat.add_assoc]

include hd in
/-- The run lemma: exactly the operations that land on a multiple save their checkpoints. -/
theorem safe_runSaves (ops : List (SaveOp χ)) (w₀ w : RunWorld ℓ α χ)
    (hnodup : (ops.map SaveOp.value).Nodup)
    (hfresh : ∀ op ∈ ops, w.state.checkpointState.lastSavedValue ≠ some op.value) :
    (d.runSaves ops : Delivery ℓ α χ Unit).Safe (.answered h False)
      (fun _ _ w' => saves w'.trace = saves w.trace ++
        landing d.checkpointEvery w.state.checkpointState.processedCount ops)
      (fun _ _ _ => False) w₀ w := by
  induction ops generalizing w₀ w with
  | nil => exact (List.append_nil _).symm
  | cons op ops ih =>
    rw [List.map_cons, List.nodup_cons] at hnodup
    unfold runSaves
    rw [safe_bind]
    refine (safe_runSave hd op (hfresh op List.mem_cons_self)).mono (fun _ w₁ w' hw' => ?_)
      fun _ _ _ he => he
    refine (ih _ _ hnodup.2 fun o ho => ?_).mono (fun _ _ w'' hw'' => ?_) fun _ _ _ he => he
    · rcases hw'.last with hlast | hlast
      · rw [hlast]
        exact hfresh o (List.mem_cons_of_mem _ ho)
      · rw [hlast]
        intro heq
        exact hnodup.1 (List.mem_map.mpr ⟨o, ho, (Option.some.inj heq).symm⟩)
    · rw [hw'', hw'.saves, hw'.count, List.append_assoc]
      rfl

end Step

/-! ## The backlog -/

section Backlog

omit [DecidableEq χ]

variable {n : ℕ}

/-- Operations that cross no multiple together stay below `n` records. -/
theorem handled_lt_of_not_crosses (hn : 0 < n) (count : ℕ) (ops : List (SaveOp χ))
    (h : ∀ before op after, ops = before ++ op :: after →
      ¬ Crosses n (count + handled before) op.size) : handled ops < n := by
  have hdiv : (count + handled ops) / n = count / n := by
    induction ops generalizing count with
    | nil => rfl
    | cons op ops ih =>
      have hop := h [] op ops rfl
      rw [handled_nil, Nat.add_zero] at hop
      have hrest := ih (count + op.size) fun before o after hops => by
        have := h (op :: before) o after (by rw [hops]; rfl)
        rwa [handled_cons, ← Nat.add_assoc] at this
      rw [handled_cons, ← Nat.add_assoc, hrest]
      exact Nat.le_antisymm (Nat.le_of_not_lt hop) (Nat.div_le_div_right (Nat.le_add_right _ _))
  have h₁ := Nat.div_add_mod count n
  have h₂ := Nat.div_add_mod (count + handled ops) n
  rw [hdiv] at h₂
  have h₃ := Nat.mod_lt (count + handled ops) hn
  omega

end Backlog

section Cadence

variable (h : Environment α χ) (lane : ℓ) (lastSaved : Option χ)

/-- The checkpoints saved by a sequence of operations at the start of a run. -/
def savedBy (ops : List (SaveOp χ)) : List χ :=
  saves (runFrom h lane lastSaved (d.runSaves ops)).2.trace

/-- The saves of a whole sequence and of its prefixes. -/
theorem savedBy_eq (hd : d.AcceptsSaves h) {ops : List (SaveOp χ)}
    (hnodup : (ops.map SaveOp.value).Nodup) (hfresh : ∀ op ∈ ops, lastSaved ≠ some op.value) :
    d.savedBy h lane lastSaved ops = landing d.checkpointEvery 0 ops := by
  have hsafe := (safe_runSaves hd ops ⟨RunState.initial lane lastSaved, []⟩
    ⟨RunState.initial lane lastSaved, []⟩ hnodup hfresh).run_answered
  unfold savedBy runFrom
  cases hrun : (d.runSaves ops).run h ⟨RunState.initial lane lastSaved, []⟩ with
  | mk r w =>
    rw [hrun] at hsafe
    cases r with
    | returned u =>
      obtain ⟨-, hsaves⟩ := hsafe
      exact hsaves
    | raised e => exact hsafe.elim fun _ h => h.elim
    | hung => exact hsafe.elim

/-- The cadence bounds the backlog: whenever the number of handled records crosses a multiple of
`checkpointEvery`, the checkpoint of that operation is saved, and so the records handled since the
last saved checkpoint are at most `checkpointEvery - 1` and those of the current operation. -/
def BoundsBacklog (ops : List (SaveOp χ)) : Prop :=
  (∀ before op after, ops = before ++ op :: after →
    Crosses d.checkpointEvery (handled before) op.size →
      d.savedBy h lane lastSaved (before ++ [op]) =
        d.savedBy h lane lastSaved before ++ [op.value]) ∧
  ∀ before backlog op after, ops = before ++ backlog ++ op :: after →
    (∀ o ∈ backlog, o.value ∉ d.savedBy h lane lastSaved ops) →
      handled (backlog ++ [op]) ≤ (d.checkpointEvery - 1) + op.size

/-- The cadence bounds the backlog exactly when every operation that crosses a multiple of
`checkpointEvery` lands on one. -/
theorem boundsBacklog_iff (hd : d.AcceptsSaves h) (ops : List (SaveOp χ))
    (hnodup : (ops.map SaveOp.value).Nodup) (hfresh : ∀ op ∈ ops, lastSaved ≠ some op.value) :
    d.BoundsBacklog h lane lastSaved ops ↔
      ∀ before op after, ops = before ++ op :: after →
        Crosses d.checkpointEvery (handled before) op.size →
          handled (before ++ [op]) % d.checkpointEvery = 0 := by
  -- the saves of a prefix are those of its operations that land on a multiple
  have hsaved : ∀ ops' rest, ops = ops' ++ rest →
      d.savedBy h lane lastSaved ops' = landing d.checkpointEvery 0 ops' := by
    rintro ops' rest rfl
    rw [List.map_append] at hnodup
    exact d.savedBy_eq h lane lastSaved hd (hnodup.sublist (List.sublist_append_left _ _))
      fun op hop => hfresh op (List.mem_append_left _ hop)
  have hstep : ∀ before op after, ops = before ++ op :: after →
      d.savedBy h lane lastSaved (before ++ [op]) = d.savedBy h lane lastSaved before ++
        if 0 < op.size ∧ handled (before ++ [op]) % d.checkpointEvery = 0 then [op.value]
        else [] := by
    intro before op after hops
    rw [hsaved before (op :: after) hops, hsaved (before ++ [op]) after (by rw [hops]; simp),
      landing_append]
    simp [landing]
  constructor
  · rintro ⟨hcross, -⟩ before op after hops hc
    have hsave := hcross before op after hops hc
    rw [hstep before op after hops] at hsave
    by_contra hmod
    rw [if_neg fun hpos => hmod hpos.2] at hsave
    exact List.cons_ne_nil _ _ (List.append_cancel_left hsave).symm
  · intro hland
    have hcross : ∀ before op after, ops = before ++ op :: after →
        Crosses d.checkpointEvery (handled before) op.size →
          d.savedBy h lane lastSaved (before ++ [op]) =
            d.savedBy h lane lastSaved before ++ [op.value] := by
      intro before op after hops hc
      have hsize : 0 < op.size := by
        by_contra hzero
        rw [Nat.eq_zero_of_not_pos hzero] at hc
        exact Nat.lt_irrefl _ hc
      rw [hstep before op after hops, if_pos ⟨hsize, hland before op after hops hc⟩]
    refine ⟨hcross, fun before backlog op after hops hunsaved => ?_⟩
    have hlt : handled backlog < d.checkpointEvery := by
      refine handled_lt_of_not_crosses d.checkpointEvery_pos (handled before) backlog
        fun b₁ o b₂ hbacklog hc => ?_
      -- an operation of the backlog that crosses a multiple has been saved
      subst hbacklog
      have hops' : ops = (before ++ b₁) ++ o :: (b₂ ++ op :: after) := by rw [hops]; simp
      rw [← handled_append] at hc
      have hsave := hcross _ o _ hops' hc
      refine hunsaved o (by simp) ?_
      have hprefix : ops = (before ++ b₁ ++ [o]) ++ (b₂ ++ op :: after) := by rw [hops']; simp
      rw [hsaved (before ++ b₁ ++ [o]) _ hprefix] at hsave
      have hall := hsaved ops [] (List.append_nil ops).symm
      have hsplit := landing_append d.checkpointEvery 0 (before ++ b₁ ++ [o]) (b₂ ++ op :: after)
      rw [← hprefix, hsave] at hsplit
      rw [hall, hsplit]
      simp
    rw [handled_append, handled_cons, handled_nil]
    omega

end Cadence

end DeliveryEngine

/-! ## A batch that steps over a multiple -/

/-- An engine that saves every three records. -/
def everyThree : DeliveryEngine ℕ ℕ :=
  { DeliveryEngine.standard false with checkpointEvery := 3, checkpointEvery_pos := by decide }

theorem acceptsSaves_everyThree : everyThree.AcceptsSaves undisturbed :=
  ⟨rfl, nofun, fun _ _ _ => rfl⟩

/-- Single records and batches of three. -/
theorem boundsBacklog_everyThree :
    everyThree.BoundsBacklog undisturbed () none [.batch 1 3, .single 2, .batch 3 2] ↔
      ∀ before op after, [SaveOp.batch 1 3, .single 2, .batch 3 2] = before ++ op :: after →
        Crosses 3 (handled before) op.size → handled (before ++ [op]) % 3 = 0 :=
  everyThree.boundsBacklog_iff undisturbed () none acceptsSaves_everyThree _ (by decide)
    fun _ _ => nofun

/-- Two batches of two records: the second one steps from two over three to four, and nothing is
saved. -/
theorem not_boundsBacklog_everyThree :
    ¬ everyThree.BoundsBacklog undisturbed () none [.batch 1 2, .batch 2 2] := by
  intro h
  have hsave := h.1 [.batch 1 2] (.batch 2 2) [] rfl (by decide)
  exact absurd hsave (by decide)

end AgoraEtl
