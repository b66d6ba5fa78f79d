import Mathlib.Data.List.TakeWhile
import AgoraEtl.Delivery.DirectFlush
import AgoraEtl.Delivery.PartialFailure

/-!
# Commits up to the first unrouted record

Two loops commit a batch record by record: `flush_batch_outcomes` when its write failed as a whole,
and `commit_outcomes` when the writer has answered for each record.  Both prepare the checkpoints of
the handled records, keep the last one that is due, and settle it together with the hooks when the
batch ends or, under `FAIL_CLOSED`, at the first record that is not routed.

`Effects` collects what a stretch of a run does outside of the engine, in its order, and
`CommitsHandled` says what a batch does with the records before the first unrouted one.
`commits_firstUnrouted` is the result for both loops.
-/

namespace AgoraEtl

open Effect Program

variable {ℓ α χ : Type}

/-! ## Effects -/

/-- The dead-letter records that were offered to the sink, whatever its answer. -/
def dlqAttempts (t : RunTrace α χ) : List (DLQRecord α χ) :=
  t.filterMap fun
    | .called (.await (.dlqWrite record)) _ => some record
    | _ => none

/-- What a stretch of a run does: the checkpoints it saves, the hooks it runs, the dead letters that
are captured, those that are offered, and the failures of the sink that are not captured. -/
structure Effects (α χ : Type) : Type where
  saved : List χ
  hooks : List Hook
  letters : List (DLQRecord α χ)
  attempts : List (DLQRecord α χ)
  unrouted : List Bool

namespace Effects

/-- Nothing is done. -/
def none : Effects α χ := ⟨[], [], [], [], []⟩

/-- Only checkpoints are saved. -/
def saving (values : List χ) : Effects α χ := ⟨values, [], [], [], []⟩

/-- Only hooks are run. -/
def running (hooks : List Hook) : Effects α χ := ⟨[], hooks, [], [], []⟩

/-- One stretch after the other. -/
instance : Append (Effects α χ) where
  append e e' := ⟨e.saved ++ e'.saved, e.hooks ++ e'.hooks, e.letters ++ e'.letters,
    e.attempts ++ e'.attempts, e.unrouted ++ e'.unrouted⟩

/-- Effects are added part by part. -/
theorem append_eq (e e' : Effects α χ) : e ++ e' = ⟨e.saved ++ e'.saved, e.hooks ++ e'.hooks,
    e.letters ++ e'.letters, e.attempts ++ e'.attempts, e.unrouted ++ e'.unrouted⟩ := rfl

/-- It does not matter how they are grouped. -/
theorem append_assoc (e e' e'' : Effects α χ) : e ++ e' ++ e'' = e ++ (e' ++ e'') := by
  simp only [append_eq, List.append_assoc]

/-- Doing nothing adds nothing. -/
@[simp] theorem append_none (e : Effects α χ) : e ++ none = e := by
  simp only [append_eq, none, List.append_nil]

/-- Nor does it before something else. -/
@[simp] theorem none_append (e : Effects α χ) : none ++ e = e := rfl

end Effects

/-- The effects of the events. -/
def effects (t : RunTrace α χ) : Effects α χ :=
  ⟨saves t, hooksRun t, dlqRecords t, dlqAttempts t, unroutedErrors t⟩

/-- The effects of two parts of a run are added. -/
theorem effects_append (t t' : RunTrace α χ) : effects (t ++ t') = effects t ++ effects t' := by
  unfold effects dlqAttempts dlqRecords hooksRun
  rw [Effects.append_eq]
  simp only [saves_append, unroutedErrors_append, List.filterMap_append]

/-- A stretch of a run does this. -/
structure Does (e : Effects α χ) (w w' : RunWorld ℓ α χ) : Prop where
  grows : w.trace <+: w'.trace
  effects : AgoraEtl.effects w'.trace = AgoraEtl.effects w.trace ++ e

namespace Does

variable {e e' : Effects α χ} {w w' w'' : RunWorld ℓ α χ}

/-- Doing nothing has no effects. -/
theorem refl (w : RunWorld ℓ α χ) : Does Effects.none w w :=
  ⟨List.prefix_rfl, (Effects.append_none _).symm⟩

/-- The effects of a sequence are added. -/
theorem trans (h : Does e w w') (h' : Does e' w' w'') : Does (e ++ e') w w'' := by
  refine ⟨h.grows.trans h'.grows, ?_⟩
  rw [h'.effects, h.effects, Effects.append_assoc]

/-- Only the state has changed. -/
theorem of_trace (h : Does e w w') (htrace : w''.trace = w'.trace) : Does e w w'' :=
  ⟨htrace ▸ h.grows, htrace ▸ h.effects⟩

/-- One more call. -/
theorem called (h : Does e w w') (o : Call α χ) (r : o.Ret) :
    Does (e ++ AgoraEtl.effects [.called o r]) w (w'.called o r) := by
  refine h.trans ⟨List.prefix_append _ _, ?_⟩
  rw [World.called_trace, effects_append]

/-- One more mark. -/
theorem mark (h : Does e w w') (m : Mark α χ) :
    Does (e ++ AgoraEtl.effects [.mark m]) w (w'.mark m) := by
  refine h.trans ⟨List.prefix_append _ _, ?_⟩
  rw [World.mark_trace, effects_append]

end Does

/-! ## One answer of the dead-letter writer -/

/-- The rows of an item, as they are shown to the dead-letter sink. -/
def DeliveryEngine.itemRows (d : DeliveryEngine α χ) (item : PendingWrite α χ) :
    Option α × Option α := d.letterRows (item.raw, some item.processed)

/-- The dead-letter writer was asked about the first items of a batch and has given the answers. -/
structure Routing (d : DeliveryEngine α χ) (items : List (PendingWrite α χ)) (answers : List Bool)
    (e : Effects α χ) : Prop where
  saved : e.saved = []
  hooks : e.hooks = []
  letters : e.letters.map DLQRecord.rows =
    ((items.zip answers).filter Prod.snd).map fun p => d.itemRows p.1
  attempts : List.Sublist (e.attempts.map DLQRecord.rows)
    ((items.take answers.length).map d.itemRows)
  unrouted : e.unrouted = List.replicate (answers.count false) false

namespace Routing

variable {d : DeliveryEngine α χ} {items : List (PendingWrite α χ)} {answers : List Bool}
  {e e' : Effects α χ}

/-- Before the first answer nothing has been routed. -/
theorem nil (items : List (PendingWrite α χ)) : Routing d items [] Effects.none :=
  ⟨rfl, rfl, by rw [List.zip_nil_right]; rfl, List.nil_sublist _, rfl⟩

/-- One answer, and those after it. -/
theorem cons {item : PendingWrite α χ} {answer : Bool} (h : Routing d [item] [answer] e)
    (h' : Routing d items answers e') : Routing d (item :: items) (answer :: answers) (e ++ e') := by
  rw [Effects.append_eq]
  refine ⟨?_, ?_, ?_, ?_, ?_⟩
  · rw [h.saved, h'.saved, List.append_nil]
  · rw [h.hooks, h'.hooks, List.append_nil]
  · rw [List.map_append, h.letters, h'.letters, ← List.map_append, ← List.filter_append]
    rfl
  · rw [List.map_append]
    exact h.attempts.append h'.attempts
  · rw [h.unrouted, h'.unrouted, List.replicate_append_replicate, ← List.count_append]
    rfl

end Routing

section Asking

variable {assume : RunTrace α χ → Event (Call α χ) Call.Ret (Mark α χ) → Prop}
  {w₀ w : RunWorld ℓ α χ} (d : DeliveryEngine α χ)

/-- A stretch of a run that keeps the checkpoint state. -/
structure Keeps (e : Effects α χ) (w w' : RunWorld ℓ α χ) : Prop where
  does : Does e w w'
  checkpointState : w'.state.checkpointState = w.state.checkpointState

/-- Doing nothing keeps the state. -/
theorem Keeps.refl (w : RunWorld ℓ α χ) : Keeps Effects.none w w := ⟨Does.refl w, rfl⟩

/-- Parts that keep the state compose. -/
theorem Keeps.trans {e e' : Effects α χ} {w w' w'' : RunWorld ℓ α χ} (h : Keeps e w w')
    (h' : Keeps e' w' w'') : Keeps (e ++ e') w w'' :=
  ⟨h.does.trans h'.does, h'.checkpointState.trans h.checkpointState⟩

/-- A call adds its own effects and keeps the state. -/
theorem Keeps.called {e : Effects α χ} {w w' : RunWorld ℓ α χ} (h : Keeps e w w') (o : Call α χ)
    (r : o.Ret) : Keeps (e ++ effects [.called o r]) w (w'.called o r) :=
  ⟨h.does.called o r, h.checkpointState⟩

/-- An attempt to capture the failure of an item: the dead letter is offered at most once. -/
theorem safe_attemptDlqWrite_keeps (exc : Exc) (item : PendingWrite α χ) :
    (d.attemptDlqWrite "sink_write" exc item.raw (some item.processed) item.checkpoint none :
      Delivery ℓ α χ Unit).Safe (.alone assume (fun _ _ => True) False)
      (fun _ _ w' => ∃ letter, Keeps ⟨[], [], [letter], [letter], []⟩ w w' ∧
        letter.rows = d.itemRows item)
      (fun _ _ w' => ∃ attempts, Keeps ⟨[], [], [], attempts, []⟩ w w' ∧
        List.Sublist (attempts.map DLQRecord.rows) [d.itemRows item]) w₀ w := by
  refine d.safe_attemptDlqWrite_of (Keeps.refl w) (fun r => (Keeps.refl w).called (.await .validateFence) r)
    (fun r hw' => hw'.called (.await .currentCheckpoint) r)
    (fun hw' => ⟨[], hw', List.nil_sublist _⟩) (fun value hw' => ?_) fun value dlqExc hw' => ?_
  · exact ⟨_, hw'.called (.await (.dlqWrite _)) (.ok ()), rfl⟩
  · exact ⟨_, hw'.called (.await (.dlqWrite _)) (.error dlqExc), List.Sublist.refl _⟩

/-- The step lemma: the answer for one item, unless the attempt raises. -/
theorem safe_writeToDlq_routing (exc : Exc) (item : PendingWrite α χ) :
    (d.writeToDlq "sink_write" exc item.raw (some item.processed) item.checkpoint none :
      Delivery ℓ α χ Bool).Safe (.alone assume (fun _ _ => True) False)
      (fun answer _ w' => ∃ e, Keeps e w w' ∧ Routing d [item] [answer] e)
      (fun _ _ w' => ∃ e, Does e w w' ∧ true ∈ e.unrouted) w₀ w := by
  refine d.safe_writeToDlq_of (J := fun w' => ∃ attempts, Keeps ⟨[], [], [], attempts, []⟩ w w' ∧
    List.Sublist (attempts.map DLQRecord.rows) [d.itemRows item]) ⟨[], Keeps.refl w, List.nil_sublist _⟩
    (fun _ => ?_) ?_ ?_ ?_
  · refine (safe_attemptDlqWrite_keeps d exc item).mono (fun _ _ w' hw' => ?_) fun _ _ _ hw' => hw'
    obtain ⟨letter, hkeeps, hrows⟩ := hw'
    have hmap : [letter].map DLQRecord.rows = [d.itemRows item] := by
      rw [List.map_singleton, hrows]
    exact ⟨_, hkeeps, rfl, rfl, hmap, hmap ▸ List.Sublist.refl _, rfl⟩
  · rintro w' metrics ⟨attempts, hkeeps, hsub⟩
    exact ⟨attempts, ⟨hkeeps.does.of_trace rfl, hkeeps.checkpointState⟩, hsub⟩
  · rintro w' ⟨attempts, hkeeps, hsub⟩ -
    refine ⟨trivial, _, ⟨hkeeps.does.mark _, hkeeps.checkpointState⟩, rfl, rfl, rfl, ?_, rfl⟩
    change List.Sublist ((attempts ++ []).map DLQRecord.rows) _
    rw [List.append_nil]
    exact hsub
  · rintro w' ⟨attempts, hkeeps, hsub⟩ -
    exact ⟨trivial, _, hkeeps.does.mark _, List.mem_cons_self⟩

end Asking

/-! ## Settling what is pending -/

/-- A handled record: its checkpoint, if it has one, and the hooks of its delivery. -/
structure Handled (χ : Type) : Type where
  checkpoint : Option χ
  hooks : List Hook

/-- The checkpoint of a handled record. -/
def CommitOutcome.checkpoint : CommitOutcome χ → Option χ
  | written checkpoint _ => checkpoint
  | dropped checkpoint _ => checkpoint
  | erroredRouted checkpoint _ => checkpoint
  | erroredUnrouted _ => none

/-- How a batch ends, with the failure of the first unrouted record if there is one. -/
def batchEnd : Option Exc → Outcome Exc Unit
  | none => .returned ()
  | some exc => .raised (.recordDelivery exc)

/-- The end of a batch as a program. -/
def endBatch : Option Exc → Delivery ℓ α χ Unit
  | none => pure ()
  | some exc => raiseRecordDelivery exc

/-- The batch ends as it is told to. -/
theorem run_endBatch (h : Environment α χ) (stop : Option Exc) (w : RunWorld ℓ α χ) :
    (endBatch stop).run h w = (batchEnd stop, w) := by
  cases stop with
  | none => rfl
  | some exc => rfl

/-- Running the hooks and ending the batch.  All hooks are run if none of them raises; otherwise those up
to the first one that does, and its error ends the batch. -/
def HooksEnd (h : Environment α χ) (hooks : List Hook) (stop : Option Exc) (w : RunWorld ℓ α χ)
    (r : Outcome Exc Unit) (w' : RunWorld ℓ α χ) : Prop :=
  (hooksRaise h w.trace hooks = none ∧ Does (.running hooks) w w' ∧ r = batchEnd stop) ∨
    ∃ earlier hook later exc, hooks = earlier ++ hook :: later ∧
      hooksRaise h w.trace earlier = none ∧ hooksRaise h w.trace (earlier ++ [hook]) = some exc ∧
      Does (.running (earlier ++ [hook])) w w' ∧ r = .raised exc

/-- The hooks are run, and then the batch ends unless one of them has raised. -/
theorem run_hooksEnd (h : Environment α χ) (hooks : List Hook) (stop : Option Exc)
    (w : RunWorld ℓ α χ) :
    ∃ r w', (runHooks hooks >>= fun _ => endBatch stop : Delivery ℓ α χ Unit).run h w = (r, w') ∧
      w'.state = w.state ∧ HooksEnd h hooks stop w r w' := by
  induction hooks generalizing w with
  | nil => exact ⟨_, w, run_endBatch h stop w, rfl, .inl ⟨rfl, Does.refl w, rfl⟩⟩
  | cons hook hooks ih =>
    unfold runHooks invoke
    rw [run_bind, run_bind, run_bind, run_perform]
    dsimp only
    have hcalled := (Does.refl w).called (.await (.successHook hook))
    cases hanswer : h w.trace (.await (.successHook hook)) with
    | error exc =>
      refine ⟨_, _, rfl, rfl, .inr ⟨[], hook, hooks, exc, rfl, rfl, ?_, hcalled (.error exc), rfl⟩⟩
      change hooksRaise h w.trace [hook] = some exc
      unfold hooksRaise
      rw [hanswer]
    | ok u =>
      cases u
      -- what follows the hook is judged by the trace with its call
      have hnext : ∀ hooks, hooksRaise h w.trace (hook :: hooks) =
          hooksRaise h (w.called (.await (.successHook hook)) (.ok ())).trace hooks := by
        intro hooks
        rw [hooksRaise, hanswer, World.called_trace]
      obtain ⟨r, w', hrun, hstate, hend⟩ := ih (w.called (.await (.successHook hook)) (.ok ()))
      rw [run_bind] at hrun
      refine ⟨r, w', hrun, hstate, ?_⟩
      rcases hend with ⟨hnone, hdone, hr⟩ | ⟨earlier, raising, later, exc, rfl, hnone, hsome, hdone, hr⟩
      · exact .inl ⟨(hnext hooks).trans hnone, (hcalled (.ok ())).trans hdone, hr⟩
      · exact .inr ⟨hook :: earlier, raising, later, exc, rfl, (hnext earlier).trans hnone,
          (hnext (earlier ++ [raising])).trans hsome, (hcalled (.ok ())).trans hdone, hr⟩

namespace DeliveryEngine

variable {d : DeliveryEngine α χ} {h : Environment α χ}

/-- A save that falls due is made once. -/
theorem run_attemptSave_accepted [DecidableEq χ] (hd : d.AcceptsSaves h) (value : χ)
    (w : RunWorld ℓ α χ) :
    ∃ t, (d.attemptSave value).run h w = (.returned true, ⟨w.state, t⟩) ∧
      Does (.saving [value]) w (⟨w.state, t⟩ : RunWorld ℓ α χ) := by
  have hsave : ∀ {w' : RunWorld ℓ α χ}, Does Effects.none w w' → w'.state = w.state →
      ∃ t, (do
          invoke (.saveCheckpoint d.checkpointKey (d.checkpointOf value))
          pure true : Delivery ℓ α χ Bool).run h w' = (.returned true, ⟨w.state, t⟩) ∧
        Does (.saving [value]) w (⟨w.state, t⟩ : RunWorld ℓ α χ) := by
    intro w' hdoes hstate
    unfold invoke
    rw [run_bind, run_bind, run_perform]
    dsimp only
    rw [hd.save]
    rw [← hstate]
    exact ⟨_, rfl, (hdoes.called (.await (.saveCheckpoint d.checkpointKey (d.checkpointOf value)))
      (.ok ())).of_trace rfl⟩
  have hstore : ¬ d.checkpointStore = false := by rw [hd.store]; nofun
  unfold attemptSave assertRunFenceActive
  rw [if_neg hstore]
  split
  · rename_i hfence
    unfold invoke
    rw [run_bind, run_bind, run_bind, run_perform]
    dsimp only
    rw [hd.fence hfence]
    exact hsave ((Does.refl w).called (.await .validateFence) (.ok true)) rfl
  · exact hsave (Does.refl w) rfl

/-- The checkpoint that is due is saved, and the counter stays. -/
theorem run_persistPending_accepted [DecidableEq χ] (hd : d.AcceptsSaves h)
    {p : Option (Checkpoint χ × ℕ)} {due : Option χ}
    (hp : p.map Prod.fst = due.map d.checkpointOf) (w : RunWorld ℓ α χ) :
    ∃ w', (d.persistPending p : Delivery ℓ α χ Unit).run h w = (.returned (), w') ∧
      Does (.saving due.toList) w w' ∧
      w'.state.checkpointState.processedCount = w.state.checkpointState.processedCount := by
  cases p with
  | none =>
    obtain rfl : due = none := by
      cases due with
      | none => rfl
      | some value => cases hp
    exact ⟨w, rfl, Does.refl w, rfl⟩
  | some p =>
    obtain ⟨checkpoint, batchSize⟩ := p
    cases due with
    | none => cases hp
    | some value =>
      obtain rfl : checkpoint = d.checkpointOf value := Option.some.inj hp
      obtain ⟨t, hattempt, hdoes⟩ := run_attemptSave_accepted hd value w
      have hreturned : (.returned true : Outcome Exc Bool) ≠ .hung := nofun
      obtain ⟨s', hrun⟩ := d.run_persistCheckpoint h value batchSize hreturned hattempt
      refine ⟨⟨s', t⟩, hrun, hdoes.of_trace rfl, ?_⟩
      have hsafe := (safe_persistCheckpoint_accepted hd (d.checkpointOf value) batchSize (v := w)
        (w := w)).run_answered
      rw [hrun] at hsafe
      obtain ⟨-, -, hstate⟩ := hsafe
      rw [hstate]
      rfl

end DeliveryEngine

/-! ## The two loops -/

/-- What a batch does with the records before its first unrouted one, with the failure of that record
if there is one: after the routing it saves the checkpoint that is due last among theirs and then runs
their hooks, and does nothing for later records.  A hook that raises ends the batch there.  Each of
these records counts towards the cadence once if it has a checkpoint. -/
structure CommitsHandled (d : DeliveryEngine α χ) (h : Environment α χ) (handled : List (Handled χ))
    (stop : Option Exc) (routing : Effects α χ) (w : RunWorld ℓ α χ) (r : Outcome Exc Unit)
    (w' : RunWorld ℓ α χ) : Prop where
  counted : w'.state.checkpointState.processedCount = w.state.checkpointState.processedCount +
    (handled.map Handled.checkpoint).countP Option.isSome
  committed : ∃ (due : Option χ) (w₁ w₂ : RunWorld ℓ α χ), Does routing w w₁ ∧
    (∀ value, due = some value ↔ w.state.checkpointState.LastDue d.checkpointEvery
      (handled.map Handled.checkpoint) value) ∧
    Does (.saving due.toList) w₁ w₂ ∧
    HooksEnd h (handled.flatMap Handled.hooks) stop w₂ r w'

namespace DeliveryEngine

variable [DecidableEq χ] {d : DeliveryEngine α χ} {h : Environment α χ}

/-- The last step of both loops: what was prepared is settled. -/
theorem commitsHandled_of_settled (hd : d.AcceptsSaves h) {handled : List (Handled χ)}
    {stop : Option Exc} {routing : Effects α χ} {w w₁ : RunWorld ℓ α χ} (hrouting : Does routing w w₁)
    (hstate : w₁.state.checkpointState = ((handled.map Handled.checkpoint).foldl d.prepareNext
      (w.state.checkpointState, none)).1) {r : Outcome Exc Unit} {w' : RunWorld ℓ α χ}
    (hrun : (d.finishCommit ⟨((handled.map Handled.checkpoint).foldl d.prepareNext
        (w.state.checkpointState, none)).2, handled.flatMap Handled.hooks⟩ >>=
      fun _ => endBatch stop).run h w₁ = (r, w')) :
    CommitsHandled d h handled stop routing w r w' := by
  obtain ⟨hcount, due, hpending, hdue⟩ :=
    foldl_prepareNext hd.store w.state.checkpointState (handled.map Handled.checkpoint)
  obtain ⟨w₂, hpersist, hsaved, hcount₂⟩ := run_persistPending_accepted hd hpending w₁
  obtain ⟨r', w₃, hhooks, hstate₃, hend⟩ := run_hooksEnd h (handled.flatMap Handled.hooks) stop w₂
  unfold finishCommit at hrun
  rw [bind_assoc, run_bind_returned h hpersist] at hrun
  obtain ⟨rfl, rfl⟩ : r' = r ∧ w₃ = w' := Prod.ext_iff.mp (hhooks.symm.trans hrun)
  refine ⟨?_, due, w₁, w₂, hrouting, hdue, hsaved, hend⟩
  rw [hstate₃, hcount₂, hstate, hcount]
  rfl

/-- Preparing the handled records at the front of a batch of outcomes. -/
theorem run_commitOutcomesFrom_front (handled rest : List (CommitOutcome χ))
    (hhandled : ∀ o ∈ handled, o.isUnrouted = false) (pending : PendingCommit χ)
    (w : RunWorld ℓ α χ) :
    (d.commitOutcomesFrom pending (handled ++ rest)).run h w =
      (d.commitOutcomesFrom ⟨((handled.map CommitOutcome.checkpoint).foldl d.prepareNext
          (w.state.checkpointState, pending.checkpoint)).2,
          pending.hooks ++ handled.flatMap CommitOutcome.hooks⟩ rest).run h
        (w.write { w.state with checkpointState :=
          ((handled.map CommitOutcome.checkpoint).foldl d.prepareNext
            (w.state.checkpointState, pending.checkpoint)).1 }) := by
  induction handled generalizing pending w with
  | nil =>
    rw [List.flatMap_nil, List.append_nil]
    rfl
  | cons outcome handled ih =>
    have hcarries : outcome.Carries outcome.checkpoint := by
      cases outcome with
      | erroredUnrouted exc => trivial
      | _ => rfl
    rw [List.cons_append, commitOutcomesFrom_handled (hhandled _ List.mem_cons_self) hcarries,
      run_bind_returned h (run_preparePending_eq pending _ _ w),
      ih fun o ho => hhandled o (List.mem_cons_of_mem _ ho), List.flatMap_cons, List.append_assoc]
    rfl

/-- The outcome is one that `resolve_write_result` returns. -/
def Produces (d : DeliveryEngine α χ) (outcome : CommitOutcome χ) : Prop :=
  ∃ (ℓ : Type) (h : Environment α χ) (w w' : RunWorld ℓ α χ) (writeResult : WriteResult)
    (rawRecord processedRecord : α) (checkpoint : Option χ) (onSuccess : List Hook),
    (d.resolveWriteResult writeResult rawRecord processedRecord checkpoint onSuccess).run h w =
      (.returned outcome, w')

omit [DecidableEq χ] in
/-- Under `LOG_AND_CONTINUE` every record is handled. -/
theorem Produces.isUnrouted_eq (hpolicy : d.sinkFailurePolicy = .logAndContinue)
    {outcome : CommitOutcome χ} (hproduces : d.Produces outcome) : outcome.isUnrouted = false := by
  obtain ⟨ℓ, h, w, w', writeResult, rawRecord, processedRecord, checkpoint, onSuccess, hrun⟩ :=
    hproduces
  have hlog : decide (d.sinkFailurePolicy = .logAndContinue) = true := decide_eq_true hpolicy
  unfold resolveWriteResult at hrun
  cases herrors : writeResult.errors with
  | nil =>
    rw [herrors] at hrun
    dsimp only at hrun
    split at hrun
    · cases hrun
      rfl
    · cases hrun
      rfl
  | cons first rest =>
    rw [herrors] at hrun
    dsimp only at hrun
    rw [run_bind] at hrun
    cases hroute : (d.routeErrors rawRecord processedRecord checkpoint (first :: rest)).run h w with
    | mk result w₁ =>
      rw [hroute] at hrun
      cases result with
      | hung => cases hrun
      | raised e => cases hrun
      | returned routedAll =>
        dsimp only at hrun
        rw [hlog, Bool.or_true, if_pos rfl] at hrun
        cases hwritten : writeResult.written with
        | true =>
          rw [hwritten] at hrun
          cases hrun
          rfl
        | false =>
          rw [hwritten] at hrun
          cases hrun
          rfl

/-- A record with its outcome, as a handled record. -/
def handledOutcome (outcome : CommitOutcome χ) : Handled χ := ⟨outcome.checkpoint, outcome.hooks⟩

/-- The records before the first unrouted one. -/
def handledOutcomes (outcomes : List (CommitOutcome χ)) : List (Handled χ) :=
  (outcomes.takeWhile fun o => !o.isUnrouted).map handledOutcome

/-- The failure of the first unrouted record. -/
def firstUnrouted (outcomes : List (CommitOutcome χ)) : Option Exc :=
  outcomes.findSome? fun
    | .erroredUnrouted exc => some exc
    | _ => none

omit [DecidableEq χ] in
/-- Handled records do not decide which failure is the first. -/
theorem firstUnrouted_append {handled : List (CommitOutcome χ)}
    (hhandled : ∀ o ∈ handled, o.isUnrouted = false) (rest : List (CommitOutcome χ)) :
    firstUnrouted (handled ++ rest) = firstUnrouted rest := by
  unfold firstUnrouted
  induction handled with
  | nil => rfl
  | cons outcome handled ih =>
    rw [List.cons_append, List.findSome?_cons, ← ih fun o ho => hhandled o (List.mem_cons_of_mem _ ho)]
    have houtcome := hhandled outcome List.mem_cons_self
    cases outcome with
    | erroredUnrouted exc => cases houtcome
    | _ => rfl

/-- The loop over the outcomes settles those at the front if it ends after them. -/
theorem commitsHandled_front (hd : d.AcceptsSaves h) {handled rest : List (CommitOutcome χ)}
    (hhandled : ∀ o ∈ handled, o.isUnrouted = false) {stop : Option Exc}
    (hrest : ∀ pending, (d.commitOutcomesFrom pending rest : Delivery ℓ α χ Unit) =
      d.finishCommit pending >>= fun _ => endBatch stop) {w w' : RunWorld ℓ α χ}
    {r : Outcome Exc Unit} (hrun : (d.commitOutcomes (handled ++ rest)).run h w = (r, w')) :
    CommitsHandled d h (handled.map handledOutcome) stop Effects.none w r w' := by
  have hcheckpoints : (handled.map handledOutcome).map Handled.checkpoint =
      handled.map CommitOutcome.checkpoint := List.map_map ..
  have hhooks : (handled.map handledOutcome).flatMap Handled.hooks =
      handled.flatMap CommitOutcome.hooks := List.flatMap_map ..
  unfold commitOutcomes at hrun
  rw [run_commitOutcomesFrom_front handled rest hhandled, hrest, ← hcheckpoints, ← hhooks] at hrun
  refine commitsHandled_of_settled hd ?_ ?_ hrun
  · exact (Does.refl w).of_trace rfl
  · rfl

/-- The commit of the outcomes that a batch has come to. -/
theorem commitOutcomes_commitsHandled (hd : d.AcceptsSaves h) {outcomes : List (CommitOutcome χ)}
    (hproduces : ∀ o ∈ outcomes, d.Produces o) {w w' : RunWorld ℓ α χ} {r : Outcome Exc Unit}
    (hrun : (d.commitOutcomes outcomes).run h w = (r, w')) :
    CommitsHandled d h (handledOutcomes outcomes) (firstUnrouted outcomes) Effects.none w r w' := by
  cases hany : outcomes.any CommitOutcome.isUnrouted with
  | true =>
    obtain ⟨handled, exc, rest, rfl, hhandled⟩ := exists_first_unrouted hany
    have hpolicy : d.sinkFailurePolicy = .failClosed := by
      cases hpolicy : d.sinkFailurePolicy with
      | failClosed => rfl
      | logAndContinue =>
        have hmem : .erroredUnrouted exc ∈ handled ++ .erroredUnrouted exc :: rest :=
          List.mem_append_right _ List.mem_cons_self
        have hnot := (hproduces _ hmem).isUnrouted_eq hpolicy
        cases hnot
    have hfront : handledOutcomes (handled ++ .erroredUnrouted exc :: rest) =
        handled.map handledOutcome := by
      unfold handledOutcomes
      rw [List.takeWhile_append_of_pos fun o ho => by rw [hhandled o ho]; rfl]
      exact congrArg (List.map handledOutcome) (List.append_nil handled)
    rw [hfront, firstUnrouted_append hhandled _]
    refine commitsHandled_front hd hhandled (fun pending => ?_) hrun
    rw [commitOutcomesFrom, if_pos hpolicy]
    rfl
  | false =>
    have hhandled : ∀ o ∈ outcomes, o.isUnrouted = false := fun o ho =>
      Bool.eq_false_iff.mpr fun htrue => by
        rw [List.any_eq_false] at hany
        exact hany o ho htrue
    have hfront : handledOutcomes outcomes = outcomes.map handledOutcome := by
      unfold handledOutcomes
      rw [List.takeWhile_eq_self_iff.mpr fun o ho => by rw [hhandled o ho]; rfl]
    have hfirst := firstUnrouted_append hhandled []
    rw [List.append_nil] at hfirst
    rw [← List.append_nil outcomes] at hrun
    rw [hfront, hfirst]
    exact commitsHandled_front hd hhandled (fun pending => (bind_pure _).symm) hrun

omit [DecidableEq χ] in
/-- The items whose failures were answered before the batch stopped: the hooks of an item run only if
its failure was captured. -/
def handledItems (items : List (PendingWrite α χ)) (answers : List Bool) : List (Handled χ) :=
  (items.zip answers).map fun p => ⟨p.1.checkpoint, if p.2 then p.1.onSuccess else []⟩

/-- The answers for the handled items, and whether the batch stops at the item after them: under
`FAIL_CLOSED` it does so at the first failure that is not captured. -/
structure StopsAfter (d : DeliveryEngine α χ) (exc : Exc) (items : List (PendingWrite α χ))
    (answers : List Bool) (stop : Option Exc) : Prop where
  handled : ∀ answer ∈ answers, answer = true ∨ d.sinkFailurePolicy = .logAndContinue
  stops : (stop = none ∧ answers.length = items.length) ∨
    (stop = some exc ∧ answers.length < items.length ∧ d.sinkFailurePolicy = .failClosed)

omit [DecidableEq χ] in
/-- One more handled item at the front. -/
theorem StopsAfter.cons {exc : Exc} {items : List (PendingWrite α χ)} {answers : List Bool}
    {stop : Option Exc} (hstops : StopsAfter d exc items answers stop) {item : PendingWrite α χ}
    {answer : Bool} (hanswer : answer = true ∨ d.sinkFailurePolicy = .logAndContinue) :
    StopsAfter d exc (item :: items) (answer :: answers) stop := by
  refine ⟨fun a ha => ?_, ?_⟩
  · rcases List.mem_cons.mp ha with rfl | ha
    · exact hanswer
    · exact hstops.handled a ha
  · rcases hstops.stops with ⟨hnone, hlength⟩ | ⟨hsome, hlt, hpolicy⟩
    · exact .inl ⟨hnone, congrArg (· + 1) hlength⟩
    · exact .inr ⟨hsome, Nat.succ_lt_succ hlt, hpolicy⟩

/-- All answers of the dead-letter writer, with that for the first unrouted item. -/
def allAnswers (answers : List Bool) (stop : Option Exc) : List Bool :=
  answers ++ stop.toList.map fun _ => false

/-- The step lemma: the dead-letter writer raises, or the item is handled and the loop goes on, or the
batch stops at the item and settles what is pending. -/
theorem run_flushItem (exc : Exc) (item : PendingWrite α χ) (items : List (PendingWrite α χ))
    (pending : PendingCommit χ) (w : RunWorld ℓ α χ) :
    (∃ r w' e, (d.flushBatchOutcomesFrom exc pending (item :: items)).run h w = (r, w') ∧
        Does e w w' ∧ true ∈ e.unrouted) ∨
      (∃ answer e w', (answer = true ∨ d.sinkFailurePolicy = .logAndContinue) ∧
        Routing d [item] [answer] e ∧ Does e w w' ∧
        w'.state.checkpointState =
          (d.prepareNext (w.state.checkpointState, pending.checkpoint) item.checkpoint).1 ∧
        (d.flushBatchOutcomesFrom exc pending (item :: items)).run h w =
          (d.flushBatchOutcomesFrom exc ⟨(d.prepareNext (w.state.checkpointState,
            pending.checkpoint) item.checkpoint).2,
            pending.hooks ++ if answer then item.onSuccess else []⟩ items).run h w') ∨
      ∃ e w', d.sinkFailurePolicy = .failClosed ∧ Routing d [item] [false] e ∧ Keeps e w w' ∧
        (d.flushBatchOutcomesFrom exc pending (item :: items)).run h w =
          (d.finishCommit pending >>= fun _ => endBatch (some exc)).run h w' := by
  have hsafe : (d.writeToDlq "sink_write" exc item.raw (some item.processed) item.checkpoint none :
      Delivery ℓ α χ Bool).Safe (.answered h False)
      (fun answer _ w' => ∃ e, Keeps e w w' ∧ Routing d [item] [answer] e)
      (fun _ _ w' => ∃ e, Does e w w' ∧ true ∈ e.unrouted) w w :=
    safe_writeToDlq_routing d exc item
  have hend := hsafe.run_answered
  rw [flushBatchOutcomesFrom, run_bind]
  cases hrun : (d.writeToDlq "sink_write" exc item.raw (some item.processed) item.checkpoint
    none).run h w with
  | mk result w₁ =>
    rw [hrun] at hend
    cases result with
    | hung => exact hend.elim
    | raised e =>
      obtain ⟨-, e', hdoes, htrue⟩ := hend
      exact .inl ⟨_, _, e', rfl, hdoes, htrue⟩
    | returned answer =>
      obtain ⟨-, e, hkeeps, hrouting⟩ := hend
      obtain ⟨w₂, hcount, hstate₂, htrace₂⟩ : ∃ w₂ : RunWorld ℓ α χ,
          (countErrored 1 : Delivery ℓ α χ Unit).run h w₁ = (.returned (), w₂) ∧
            w₂.state.checkpointState = w₁.state.checkpointState ∧ w₂.trace = w₁.trace :=
        ⟨_, rfl, rfl, rfl⟩
      have hkeeps₂ : Keeps e w w₂ :=
        ⟨hkeeps.does.of_trace htrace₂, hstate₂.trans hkeeps.checkpointState⟩
      dsimp only
      rw [run_bind_returned h hcount]
      by_cases hhandled : (answer || d.sinkFailurePolicy = .logAndContinue) = true
      · -- the item is noted as settled and counted into the pending commit
        have hdoes₃ := hkeeps₂.does.mark (.settled item.checkpoint (failureHandling answer))
        have hsettled : effects ([.mark (.settled item.checkpoint (failureHandling answer))] :
            RunTrace α χ) = Effects.none := rfl
        rw [hsettled, Effects.append_none] at hdoes₃
        have hprepare := run_preparePending_eq (d := d) (h := h) pending item.checkpoint
          (if answer then item.onSuccess else [])
          (w₂.mark (.settled item.checkpoint (failureHandling answer)))
        rw [World.mark_state, hkeeps₂.checkpointState] at hprepare
        rw [if_pos hhandled, run_bind_returned h (run_note h w₂ _), run_bind_returned h hprepare]
        refine .inr (.inl ⟨answer, e, _,
          (Bool.or_eq_true _ _ ▸ hhandled).imp_right of_decide_eq_true, hrouting, ?_, ?_, rfl⟩)
        · exact hdoes₃.of_trace rfl
        · rfl
      · -- the failure was not captured, and the policy does not let the loop go on
        rw [if_neg hhandled]
        obtain ⟨rfl, hnot⟩ : answer = false ∧ ¬ d.sinkFailurePolicy = .logAndContinue := by
          simpa using hhandled
        have hpolicy : d.sinkFailurePolicy = .failClosed := by
          cases hpolicy : d.sinkFailurePolicy with
          | failClosed => rfl
          | logAndContinue => exact absurd hpolicy hnot
        exact .inr (.inr ⟨e, w₂, hpolicy, hrouting, hkeeps₂, rfl⟩)

/-- The run lemma: unless the dead-letter writer raises, the items are asked about up to the first
unrouted one, and what the items before it have come to is settled. -/
theorem run_flushBatchOutcomesFrom (exc : Exc) (items : List (PendingWrite α χ))
    (pending : PendingCommit χ) (w : RunWorld ℓ α χ) :
    ∃ r w', (d.flushBatchOutcomesFrom exc pending items).run h w = (r, w') ∧
      ((∃ e, Does e w w' ∧ true ∈ e.unrouted) ∨
        ∃ answers stop e w₁, StopsAfter d exc items answers stop ∧
          Routing d items (allAnswers answers stop) e ∧ Does e w w₁ ∧
          w₁.state.checkpointState =
            (((handledItems items answers).map Handled.checkpoint).foldl d.prepareNext
              (w.state.checkpointState, pending.checkpoint)).1 ∧
          (d.finishCommit ⟨(((handledItems items answers).map Handled.checkpoint).foldl
              d.prepareNext (w.state.checkpointState, pending.checkpoint)).2,
              pending.hooks ++ (handledItems items answers).flatMap Handled.hooks⟩ >>=
            fun _ => endBatch stop).run h w₁ = (r, w')) := by
  induction items generalizing pending w with
  | nil =>
    refine ⟨_, _, rfl, .inr ⟨[], none, Effects.none, w, ⟨nofun, .inl ⟨rfl, rfl⟩⟩, Routing.nil _,
      Does.refl w, rfl, ?_⟩⟩
    change (d.finishCommit ⟨pending.checkpoint, pending.hooks ++ []⟩ >>= fun _ => pure ()).run h w = _
    rw [List.append_nil]
    exact congrArg (fun p => Program.run h p w) (bind_pure _)
  | cons item items ih =>
    rcases run_flushItem (d := d) (h := h) exc item items pending w with
      ⟨r, w', e, hrun, hdoes, htrue⟩ | ⟨answer, e, w₁, hhandled, hrouting, hdoes, hstate, hrun⟩ |
      ⟨e, w₁, hpolicy, hrouting, hkeeps, hrun⟩
    · exact ⟨r, w', hrun, .inl ⟨e, hdoes, htrue⟩⟩
    · obtain ⟨r, w', hrest, hcases⟩ := ih ⟨_, pending.hooks ++ if answer then item.onSuccess else []⟩ w₁
      refine ⟨r, w', hrun.trans hrest, ?_⟩
      rw [hstate] at hcases
      rcases hcases with ⟨e', hdoes', htrue⟩ | ⟨answers, stop, e', w₂, hstops, hrouting', hdoes',
        hstate', hfinish⟩
      · exact .inl ⟨e ++ e', hdoes.trans hdoes', List.mem_append_right _ htrue⟩
      · refine .inr ⟨answer :: answers, stop, e ++ e', w₂, hstops.cons hhandled,
          hrouting.cons hrouting', hdoes.trans hdoes', hstate', ?_⟩
        rw [List.append_assoc] at hfinish
        exact hfinish
    · refine ⟨_, _, hrun, .inr ⟨[], some exc, e, w₁, ⟨nofun, .inr ⟨rfl, Nat.succ_pos _, hpolicy⟩⟩, ?_,
        hkeeps.does, hkeeps.checkpointState, ?_⟩⟩
      · have hone := hrouting.cons (Routing.nil (d := d) items)
        rwa [Effects.append_none] at hone
      · change (d.finishCommit ⟨pending.checkpoint, pending.hooks ++ []⟩ >>= _).run h w₁ = _
        rw [List.append_nil]

/-- The flush of a batch that failed as a whole, if the dead-letter writer answers for the items it is
asked about. -/
theorem flushBatchOutcomes_commitsHandled (hd : d.AcceptsSaves h) {exc : Exc}
    {items : List (PendingWrite α χ)} {w w' : RunWorld ℓ α χ} {r : Outcome Exc Unit}
    (hrun : (d.flushBatchOutcomes exc items).run h w = (r, w'))
    (hdlq : ∀ t, w'.trace = w.trace ++ t → ∀ raised ∈ unroutedErrors t, raised = false) :
    ∃ answers stop e, StopsAfter d exc items answers stop ∧
      Routing d items (allAnswers answers stop) e ∧
      CommitsHandled d h (handledItems items answers) stop e w r w' := by
  obtain ⟨r', w₁, hrun', hcases⟩ :=
    run_flushBatchOutcomesFrom (d := d) (h := h) exc items .empty w
  obtain ⟨rfl, rfl⟩ : r' = r ∧ w₁ = w' := Prod.ext_iff.mp (hrun'.symm.trans hrun)
  rcases hcases with ⟨e, hdoes, htrue⟩ | ⟨answers, stop, e, w₂, hstops, hrouting, hdoes, hstate,
    hfinish⟩
  · obtain ⟨t, ht⟩ := hdoes.grows
    have heffects := hdoes.effects
    rw [← ht, effects_append] at heffects
    have hsame : unroutedErrors w.trace ++ unroutedErrors t = unroutedErrors w.trace ++ e.unrouted :=
      congrArg Effects.unrouted heffects
    rw [← List.append_cancel_left hsame] at htrue
    cases hdlq t ht.symm true htrue
  · exact ⟨answers, stop, e, hstops, hrouting, commitsHandled_of_settled hd hdoes hstate hfinish⟩

/-- Where the store accepts saves, both loops save at most one checkpoint, that which is due last
among the records before the first unrouted one, and then run the hooks of these records; each of them
counts towards the cadence once if it has a checkpoint.  The loop over the items of a failed batch
offers no later item to the dead-letter sink. -/
theorem commits_firstUnrouted (hd : d.AcceptsSaves h) (w : RunWorld ℓ α χ) :
    (∀ outcomes, (∀ o ∈ outcomes, d.Produces o) → ∀ r w', (d.commitOutcomes outcomes).run h w = (r, w') →
      CommitsHandled d h (handledOutcomes outcomes) (firstUnrouted outcomes) Effects.none w r w') ∧
    ∀ exc items r w', (d.flushBatchOutcomes exc items).run h w = (r, w') →
      (∀ t, w'.trace = w.trace ++ t → ∀ raised ∈ unroutedErrors t, raised = false) →
      ∃ answers stop e, StopsAfter d exc items answers stop ∧
        Routing d items (allAnswers answers stop) e ∧
        CommitsHandled d h (handledItems items answers) stop e w r w' :=
  ⟨fun _ hproduces _ _ hrun => commitOutcomes_commitsHandled hd hproduces hrun,
    fun _ _ _ _ hrun hdlq => flushBatchOutcomes_commitsHandled hd hrun hdlq⟩

/-- When all failures of a batch are captured, every item counts towards the cadence once. -/
def EveryItemCounts (d : DeliveryEngine α χ) (h : Environment α χ) (exc : Exc)
    (items : List (PendingWrite α χ)) (w : RunWorld ℓ α χ) : Prop :=
  ∀ r w', (d.flushBatchOutcomes exc items).run h w = (r, w') →
    unroutedErrors w'.trace = unroutedErrors w.trace →
      w'.state.checkpointState.processedCount =
        w.state.checkpointState.processedCount + items.length

/-- When all failures of a batch are captured, the hooks of all items are run. -/
def EveryHookRuns (d : DeliveryEngine α χ) (h : Environment α χ) (exc : Exc)
    (items : List (PendingWrite α χ)) (w : RunWorld ℓ α χ) : Prop :=
  ∀ r w', (d.flushBatchOutcomes exc items).run h w = (r, w') →
    unroutedErrors w'.trace = unroutedErrors w.trace →
      hooksRun w'.trace = hooksRun w.trace ++ items.flatMap PendingWrite.onSuccess

end DeliveryEngine

/-! ## A batch with an unrouted item -/

/-- Three items with a hook each. -/
def threeItems : List (PendingWrite ℕ ℕ) :=
  [⟨1, 1, some 10, [5]⟩, ⟨2, 2, some 20, [6]⟩, ⟨3, 3, some 30, [7]⟩]

/-- What the writer made of them, if it failed for the second one only. -/
def threeOutcomes : List (CommitOutcome ℕ) :=
  [.written (some 10) [5], .erroredUnrouted (.runtimeError "rejected"), .written (some 30) [7]]

/-- The dead-letter sink refuses the second item. -/
def refusesSecond : Environment ℕ ℕ
  | _, .await (.dlqWrite ⟨_, _, _, _, _, some 2, _, _, _, _, _, _⟩) => .error (.runtimeError "full")
  | t, o => undisturbed t o

/-- The flush of the three items after their write failed as a whole. -/
def flushThree : Outcome Exc Unit × RunWorld Unit ℕ ℕ :=
  ((DeliveryEngine.standard true).flushBatchOutcomes (.runtimeError "rejected") threeItems).run
    refusesSecond atStart

/-- The commit of the three outcomes. -/
def commitThree : Outcome Exc Unit × RunWorld Unit ℕ ℕ :=
  ((DeliveryEngine.standard true).commitOutcomes threeOutcomes).run refusesSecond atStart

/-- The engine can produce the three outcomes. -/
theorem produces_threeOutcomes :
    ∀ o ∈ threeOutcomes, (DeliveryEngine.standard true : DeliveryEngine ℕ ℕ).Produces o := by
  intro o ho
  rcases List.mem_cons.mp ho with rfl | ho
  · exact ⟨Unit, undisturbed, atStart, _, ⟨true, []⟩, 1, 1, some 10, [5], rfl⟩
  rcases List.mem_cons.mp ho with rfl | ho
  · exact ⟨Unit, refusesSecond, atStart, _, ⟨false, [.runtimeError "rejected"]⟩, 2, 2, some 20, [6],
      rfl⟩
  · obtain rfl := List.mem_singleton.mp ho
    exact ⟨Unit, undisturbed, atStart, _, ⟨true, []⟩, 3, 3, some 30, [7], rfl⟩

/-- Under `FAIL_CLOSED` both loops stop at the second item: the checkpoint of the first one is saved, its
hook is run, and the third one is not touched. -/
theorem commits_threeItems :
    (CommitsHandled (DeliveryEngine.standard true) refusesSecond
        (DeliveryEngine.handledOutcomes threeOutcomes) (DeliveryEngine.firstUnrouted threeOutcomes)
        Effects.none atStart commitThree.1 commitThree.2 ∧
      commitThree.1 = .raised (.recordDelivery (.runtimeError "rejected")) ∧
      saves commitThree.2.trace = [10] ∧ hooksRun commitThree.2.trace = [5]) ∧
    (∃ answers stop e, DeliveryEngine.StopsAfter (DeliveryEngine.standard true)
        (.runtimeError "rejected") threeItems answers stop ∧
      Routing (DeliveryEngine.standard true) threeItems (DeliveryEngine.allAnswers answers stop) e ∧
      CommitsHandled (DeliveryEngine.standard true) refusesSecond
        (DeliveryEngine.handledItems threeItems answers) stop e atStart flushThree.1 flushThree.2) ∧
      flushThree.1 = .raised (.recordDelivery (.runtimeError "rejected")) ∧
      saves flushThree.2.trace = [10] ∧ hooksRun flushThree.2.trace = [5] ∧
      (dlqAttempts flushThree.2.trace).map DLQRecord.record = [some 1, some 2] := by
  obtain ⟨hcommit, hflush⟩ := DeliveryEngine.commits_firstUnrouted (d := .standard true)
    (h := refusesSecond) ⟨rfl, fun _ _ => rfl, fun _ _ _ => rfl⟩ atStart
  refine ⟨⟨hcommit threeOutcomes produces_threeOutcomes _ _ rfl, rfl, rfl, rfl⟩,
    hflush (.runtimeError "rejected") threeItems _ _ rfl fun t ht raised hraised => ?_,
    rfl, rfl, rfl, rfl⟩
  have hone : unroutedErrors t = [false] := (congrArg unroutedErrors ht).symm.trans rfl
  rw [hone] at hraised
  exact List.mem_singleton.mp hraised

/-! ## A batch of two captured failures -/

/-- Two items with a hook each, of which the first has no checkpoint. -/
def twoItems : List (PendingWrite ℕ ℕ) := [⟨1, 1, none, [5]⟩, ⟨2, 2, some 20, [6]⟩]

/-- The hook of the first item raises. -/
def firstHookRaises : Environment ℕ ℕ
  | _, .await (.successHook 5) => .error (.runtimeError "hook")
  | t, o => undisturbed t o

/-- The item without a checkpoint does not count towards the cadence, and a hook that raises keeps the
next one from running. -/
theorem not_everyItemCounts_twoItems :
    ¬ (DeliveryEngine.standard true).EveryItemCounts undisturbed (.runtimeError "rejected") twoItems
        atStart ∧
      ¬ (DeliveryEngine.standard true).EveryHookRuns firstHookRaises (.runtimeError "rejected")
        twoItems atStart := by
  constructor
  · intro h
    exact absurd (h _ _ rfl rfl) (by decide)
  · intro h
    exact absurd (h _ _ rfl rfl) (by decide)

end AgoraEtl
