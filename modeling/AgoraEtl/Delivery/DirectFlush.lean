import AgoraEtl.Delivery.Cadence
import AgoraEtl.Effect.Lockstep

/-!
# The direct flush and the plain one

`flush_batch_direct` writes a batch without queueing it. When every record was written it saves one
checkpoint for the whole batch, that of its last record, and counts the batch as a whole, where the
plain flush prepares a checkpoint record by record and keeps the last one that is due.

`flushBatchDirect_agrees` says that the two flushes agree whenever the same checkpoint is due in
both, and, where the store accepts saves, only then.
-/

namespace AgoraEtl

open Effect Program

variable {ℓ α χ : Type}

/-! ## The two flushes side by side -/

/-- The dead-letter records written in a run, in their order. -/
def dlqRecords (t : RunTrace α χ) : List (DLQRecord α χ) :=
  t.filterMap fun
    | .called (.await (.dlqWrite record)) (.ok ()) => some record
    | _ => none

/-- The success hooks run, in their order. -/
def hooksRun (t : RunTrace α χ) : List Hook :=
  t.filterMap fun
    | .called (.await (.successHook hook)) _ => some hook
    | _ => none

/-- The counters agree that a flush changes. -/
structure SameCounters (s s' : RunState ℓ α χ) : Prop where
  written : s.metrics.recordsWritten = s'.metrics.recordsWritten
  errored : s.metrics.recordsErrored = s'.metrics.recordsErrored
  dropped : s.metrics.recordsDropped = s'.metrics.recordsDropped

/-- Two flushes have ended alike: with the same error or none, the same counters, dead-letter
records, saved checkpoints and hooks. -/
structure SameFlush (r r' : Outcome Exc Unit × RunWorld ℓ α χ) : Prop where
  outcome : r.1 = r'.1
  counters : SameCounters r.2.state r'.2.state
  dlqRecords : AgoraEtl.dlqRecords r.2.trace = AgoraEtl.dlqRecords r'.2.trace
  saves : AgoraEtl.saves r.2.trace = AgoraEtl.saves r'.2.trace
  hooksRun : AgoraEtl.hooksRun r.2.trace = AgoraEtl.hooksRun r'.2.trace

namespace SameFlush

/-- Ending alike in worlds that are alongside. -/
theorem of_alongside {r r' : Outcome Exc Unit × RunWorld ℓ α χ} (houtcome : r.1 = r'.1)
    (halong : Alongside SameCounters r.2 r'.2) : SameFlush r r' := by
  refine ⟨houtcome, halong.state, ?_, ?_, ?_⟩
  · rw [halong.trace]
  · rw [halong.trace]
  · rw [halong.trace]

theorem refl (r : Outcome Exc Unit × RunWorld ℓ α χ) : SameFlush r r :=
  of_alongside rfl ⟨⟨rfl, rfl, rfl⟩, rfl⟩

end SameFlush

namespace CheckpointState

variable (c : CheckpointState χ) (every : ℕ) (checkpoints : List (Option χ))

/-- Counting record by record, a save is due at the record with the index. -/
structure DueAt (i : ℕ) (value : χ) : Prop where
  get : checkpoints[i]? = some (some value)
  fresh : c.lastSavedValue ≠ some value
  lands : (c.processedCount + (checkpoints.take (i + 1)).countP Option.isSome) % every = 0

/-- The checkpoint that is due last, counting record by record. -/
def LastDue (value : χ) : Prop :=
  ∃ i, c.DueAt every checkpoints i value ∧ ∀ j v, i < j → ¬ c.DueAt every checkpoints j v

/-- The checkpoint that is due for the batch as a whole. -/
structure BatchDue (value : χ) : Prop where
  last : checkpoints.getLast? = some (some value)
  fresh : c.lastSavedValue ≠ some value
  lands : (c.processedCount + checkpoints.length) % every = 0

/-- The same checkpoint is due in both ways of counting. -/
def SameDue : Prop := ∀ value, c.LastDue every checkpoints value ↔ c.BatchDue every checkpoints value

end CheckpointState

namespace DeliveryEngine

variable (d : DeliveryEngine α χ) [DecidableEq α]

/-- Queue the items: what `queue_success_record` does before it looks at the size of the queue. -/
def queueItems : List (PendingWrite α χ) → Delivery ℓ α χ Unit
  | [] => pure ()
  | item :: items => do
    let hooks ← successHookFor item.raw (some item.processed) item.onSuccess
    let _ ← appendPendingWrite { item with onSuccess := hooks }
    queueItems items

variable [DecidableEq χ]

/-- Queue the items and flush them. -/
def queueAndFlush (items : List (PendingWrite α χ)) : Delivery ℓ α χ Unit := do
  queueItems items
  d.flushPendingWritesOnce

/-- The writer answers that it has written every record. -/
def AllWritten (h : Environment α χ) (items : List (PendingWrite α χ)) (w : RunWorld ℓ α χ) : Prop :=
  ∃ results w', (d.writeBatch (items.map PendingWrite.processed)).run h w =
      (.returned results, w') ∧
    results.length = items.length ∧ results.all WriteResult.ok = true

/-- Both flushes end alike from a world. -/
def FlushesAgree (h : Environment α χ) (items : List (PendingWrite α χ)) (w : RunWorld ℓ α χ) :
    Prop :=
  SameFlush ((d.flushBatchDirect items).run h w) ((d.queueAndFlush items).run h w)

/-! ## Queueing -/

section Queueing

variable (h : Environment α χ)

omit [DecidableEq χ]

/-- Collecting hooks reads and changes the hook table only. -/
theorem run_popSuccessHooks (records : List α) :
    ∃ f : (α → List Registration) → List Hook × (α → List Registration),
      ∀ w : RunWorld ℓ α χ, (popSuccessHooks records : Delivery ℓ α χ (List Hook)).run h w =
        (.returned (f w.state.successHooks).1,
          w.write { w.state with successHooks := (f w.state.successHooks).2 }) := by
  induction records with
  | nil => exact ⟨fun table => ([], table), fun _ => rfl⟩
  | cons record records ih =>
    obtain ⟨f, hf⟩ := ih
    refine ⟨fun table =>
      let rest := f (Function.update table record [])
      ((table record).map Registration.hook ++ rest.1, rest.2), fun w => ?_⟩
    rw [popSuccessHooks, run_bind_returned h (a := w.state.successHooks record) rfl,
      run_bind_returned h (hf _)]
    rfl

theorem run_successHookFor (rawRecord processedRecord : α) (onSuccess : List Hook) :
    ∃ f : (α → List Registration) → List Hook × (α → List Registration),
      ∀ w : RunWorld ℓ α χ, (successHookFor rawRecord (some processedRecord) onSuccess :
          Delivery ℓ α χ (List Hook)).run h w =
        (.returned (f w.state.successHooks).1,
          w.write { w.state with successHooks := (f w.state.successHooks).2 }) := by
  obtain ⟨f, hf⟩ := run_popSuccessHooks h (ℓ := ℓ) (χ := χ) [rawRecord, processedRecord]
  refine ⟨fun table => (onSuccess ++ (f table).1, (f table).2), fun w => ?_⟩
  rw [successHookFor, run_bind_returned h (hf w)]
  rfl

/-- Queueing items collects the same hooks as the direct flush does, and appends the items. -/
theorem run_collectHooks (items : List (PendingWrite α χ)) :
    ∃ f : (α → List Registration) → List (PendingWrite α χ) × (α → List Registration),
      (∀ w : RunWorld ℓ α χ, (collectHooks items).run h w =
        (.returned (f w.state.successHooks).1,
          w.write { w.state with successHooks := (f w.state.successHooks).2 })) ∧
      (∀ w : RunWorld ℓ α χ, (queueItems items).run h w = (.returned (), w.write { w.state with
        successHooks := (f w.state.successHooks).2
        pendingWrites := w.state.pendingWrites ++ (f w.state.successHooks).1 })) ∧
      ∀ table, (f table).1.map PendingWrite.processed = items.map PendingWrite.processed ∧
        (f table).1.map PendingWrite.checkpoint = items.map PendingWrite.checkpoint := by
  induction items with
  | nil =>
    refine ⟨fun table => ([], table), fun _ => rfl, fun w => ?_, fun _ => ⟨rfl, rfl⟩⟩
    rw [List.append_nil]
    rfl
  | cons item items ih =>
    obtain ⟨f, hcollect, hqueue, hmaps⟩ := ih
    obtain ⟨g, hg⟩ := run_successHookFor h (ℓ := ℓ) (χ := χ) item.raw item.processed item.onSuccess
    refine ⟨fun table => ({ item with onSuccess := (g table).1 } :: (f (g table).2).1,
      (f (g table).2).2), fun w => ?_, fun w => ?_, fun table => ?_⟩
    · rw [collectHooks, run_bind_returned h (hg w), run_bind_returned h (hcollect _)]
      rfl
    · rw [queueItems, run_bind_returned h (hg w), appendPendingWrite, run_bind,
        run_bind_returned h (run_modify h _ _), run_bind_returned h (run_read h _), pure_eq_ret,
        run_ret]
      dsimp only
      rw [hqueue]
      simp only [World.write_state, List.append_assoc, List.singleton_append]
      rfl
    · obtain ⟨hprocessed, hcheckpoint⟩ := hmaps (g table).2
      exact ⟨congrArg (item.processed :: ·) hprocessed, congrArg (item.checkpoint :: ·) hcheckpoint⟩

end Queueing

/-! ## Writing -/

/-- What a flush does with its batch; the flushes differ in how they commit a batch that was written
as a whole. -/
def flushWith (commit : List (PendingWrite α χ) → Delivery ℓ α χ Unit)
    (batch : List (PendingWrite α χ)) : Delivery ℓ α χ Unit := do
  let written ← d.writeItems batch
  match written with
  | none => pure ()
  | some writeResults => do
    validateWriteResultCount "" batch.length writeResults.length
    if writeResults.all WriteResult.ok then commit batch
    else do
      let outcomes ← d.resolveRecords (batch.zip writeResults)
      d.commitOutcomes outcomes

section Writing

variable {d} {h : Environment α χ} {w : RunWorld ℓ α χ} {items batch : List (PendingWrite α χ)}

/-- A flush of a queue that is not empty takes it whole. -/
theorem run_flushPendingWritesOnce (hpending : w.state.pendingWrites ≠ []) :
    d.flushPendingWritesOnce.run h w =
      (d.flushBatch w.state.pendingWrites).run h (w.write { w.state with pendingWrites := [] }) := by
  rw [flushPendingWritesOnce, run_bind_returned h (run_read h w),
    if_neg (mt List.isEmpty_iff.mp hpending), run_bind_returned h (run_modify h w _)]

/-- From an empty queue, both flushes go on with the same batch from the same world. -/
theorem run_flushes (hitems : items ≠ []) (hqueue : w.state.pendingWrites = []) :
    ∃ batch, ∃ w' : RunWorld ℓ α χ,
      (d.flushBatchDirect items).run h w = (d.flushWith d.commitDirect batch).run h w' ∧
      (d.queueAndFlush items).run h w =
        (d.flushWith d.commitPendingWriteSuccessBatch batch).run h w' ∧
      batch.map PendingWrite.processed = items.map PendingWrite.processed ∧
      batch.map PendingWrite.checkpoint = items.map PendingWrite.checkpoint ∧
      w'.trace = w.trace ∧ w'.state.checkpointState = w.state.checkpointState := by
  obtain ⟨f, hcollect, hqueued, hmaps⟩ := run_collectHooks h (ℓ := ℓ) items
  obtain ⟨hprocessed, hcheckpoint⟩ := hmaps w.state.successHooks
  have hbatch : (f w.state.successHooks).1 ≠ [] := by
    intro hnil
    rw [hnil] at hprocessed
    exact hitems (List.map_eq_nil_iff.mp hprocessed.symm)
  refine ⟨(f w.state.successHooks).1,
    w.write { w.state with successHooks := (f w.state.successHooks).2 }, ?_, ?_, hprocessed,
    hcheckpoint, rfl, rfl⟩
  · rw [flushBatchDirect, if_neg (by simpa using hitems), run_bind_returned h (hcollect w)]
    rfl
  · rw [queueAndFlush, run_bind_returned h (hqueued w), hqueue, List.nil_append,
      run_flushPendingWritesOnce hbatch]
    simp only [World.write_state, ← hqueue]
    rfl

omit [DecidableEq α] [DecidableEq χ] in
/-- A call looks at the trace only. -/
theorem lockstep_invoke {S : RunState ℓ α χ → RunState ℓ α χ → Prop} (a : Await α χ) :
    Lockstep S (invoke a : Delivery ℓ α χ a.Value) (invoke a) :=
  .bind (.perform _) fun r => .ofExcept r

omit [DecidableEq α] [DecidableEq χ] in
/-- `assert_run_fence_active` looks at the trace only. -/
theorem lockstep_assertRunFenceActive {S : RunState ℓ α χ → RunState ℓ α χ → Prop} :
    Lockstep S (d.assertRunFenceActive : Delivery ℓ α χ Unit) d.assertRunFenceActive := by
  unfold assertRunFenceActive
  split
  · refine .bind (lockstep_invoke _) fun active => ?_
    split
    · exact .ret ()
    · exact .raise _
  · exact .ret ()

omit [DecidableEq α] [DecidableEq χ] in
/-- A batch write looks at the trace only, and changes counters only. -/
theorem lockstep_writeBatch {S : RunState ℓ α χ → RunState ℓ α χ → Prop}
    (hS : ∀ s t m m', S s t → S { s with metrics := m } { t with metrics := m' })
    (records : List α) :
    Lockstep S (d.writeBatch records : Delivery ℓ α χ (List WriteResult))
      (d.writeBatch records) := by
  unfold writeBatch recordFlushMetrics
  refine .bind lockstep_assertRunFenceActive fun _ => ?_
  refine .bind (lockstep_invoke _) fun results => ?_
  exact .bind (.modify fun s t hs => hS s t _ _ hs) fun _ => .ret _

omit [DecidableEq α] [DecidableEq χ] in
/-- A batch write leaves the checkpoint state as it is. -/
theorem checkpointState_writeBatch (records : List α) (w : RunWorld ℓ α χ) :
    ((d.writeBatch records).run h w).2.state.checkpointState = w.state.checkpointState := by
  have hstep := lockstep_writeBatch (d := d) (ℓ := ℓ)
    (S := fun s _ => s.checkpointState = w.state.checkpointState) (fun _ _ _ _ hs => hs) records h w w
    ⟨rfl, rfl⟩
  exact hstep.2.state

omit [DecidableEq α] in
/-- The batch was handed on, so the writer has returned these results. -/
theorem run_writeBatch_of_writeItems {results : List WriteResult} {w' : RunWorld ℓ α χ}
    (hrun : (d.writeItems batch).run h w = (.returned (some results), w')) :
    (d.writeBatch (batch.map PendingWrite.processed)).run h w = (.returned results, w') := by
  rw [writeItems, catchSinkException, catchException, run_bind, run_attempt, run_bind] at hrun
  cases hwrite : (d.writeBatch (batch.map PendingWrite.processed)).run h w with
  | mk outcome w₁ =>
    rw [hwrite] at hrun
    cases outcome with
    | returned results' =>
      simp only [pure_eq_ret, run_ret, Outcome.caught, Prod.mk.injEq, Outcome.returned.injEq,
        Option.some.injEq] at hrun
      rw [hrun.1, hrun.2]
    | hung =>
      simp [Outcome.caught] at hrun
    | raised e =>
      exfalso
      simp only [Outcome.caught] at hrun
      -- the handler raises or hands on nothing
      split_ifs at hrun
      · cases hrun
      · rw [run_bind] at hrun
        split at hrun
        · cases hrun
        · cases hrun
        · cases hrun
      · cases hrun

end Writing

end DeliveryEngine

/-! ## Which checkpoint is due -/

namespace CheckpointState

variable {c : CheckpointState χ} {every : ℕ} {checkpoints : List (Option χ)} {value : χ}

/-- Due at a record before the last one. -/
theorem dueAt_append {i : ℕ} (hi : i < checkpoints.length) (last : Option χ) :
    c.DueAt every (checkpoints ++ [last]) i value ↔ c.DueAt every checkpoints i value := by
  have htake : (checkpoints ++ [last]).take (i + 1) = checkpoints.take (i + 1) :=
    List.take_append_of_le_length hi
  constructor
  · rintro ⟨hget, hfresh, hlands⟩
    rw [List.getElem?_append_left hi] at hget
    rw [htake] at hlands
    exact ⟨hget, hfresh, hlands⟩
  · rintro ⟨hget, hfresh, hlands⟩
    refine ⟨?_, hfresh, ?_⟩
    · rwa [List.getElem?_append_left hi]
    · rwa [htake]

/-- Due at the last record. -/
theorem dueAt_last (last : Option χ) :
    c.DueAt every (checkpoints ++ [last]) checkpoints.length value ↔
      last = some value ∧ c.lastSavedValue ≠ some value ∧
        (c.processedCount + (checkpoints.countP Option.isSome + 1)) % every = 0 := by
  have htake : (checkpoints ++ [last]).take (checkpoints.length + 1) = checkpoints ++ [last] :=
    List.take_of_length_le (by simp)
  constructor
  · rintro ⟨hget, hfresh, hlands⟩
    rw [List.getElem?_concat_length, Option.some.injEq] at hget
    subst hget
    rw [htake, List.countP_append] at hlands
    exact ⟨rfl, hfresh, hlands⟩
  · rintro ⟨rfl, hfresh, hlands⟩
    refine ⟨List.getElem?_concat_length, hfresh, ?_⟩
    rw [htake, List.countP_append]
    exact hlands

theorem DueAt.lt {i : ℕ} (h : c.DueAt every checkpoints i value) : i < checkpoints.length := by
  obtain ⟨hi, -⟩ := List.getElem?_eq_some_iff.mp h.get
  exact hi

/-- The last due checkpoint of a longer batch: that of the last record if it is due, and otherwise
the one before. -/
theorem lastDue_append (last : Option χ) :
    c.LastDue every (checkpoints ++ [last]) value ↔
      c.DueAt every (checkpoints ++ [last]) checkpoints.length value ∨
      (∀ v, ¬ c.DueAt every (checkpoints ++ [last]) checkpoints.length v) ∧
        c.LastDue every checkpoints value := by
  constructor
  · rintro ⟨i, hdue, hlast⟩
    have hlt := hdue.lt
    rw [List.length_append, List.length_singleton] at hlt
    rcases Nat.lt_succ_iff_lt_or_eq.mp hlt with hbefore | rfl
    · refine .inr ⟨fun v => hlast _ v hbefore, i, (dueAt_append hbefore last).mp hdue, ?_⟩
      intro j v hij hdue'
      exact hlast j v hij ((dueAt_append hdue'.lt last).mpr hdue')
    · exact .inl hdue
  · rintro (hdue | ⟨hnone, i, hdue, hlast⟩)
    · refine ⟨_, hdue, fun j v hj hdue' => ?_⟩
      have hlt := hdue'.lt
      rw [List.length_append, List.length_singleton] at hlt
      omega
    · refine ⟨i, (dueAt_append hdue.lt last).mpr hdue, fun j v hij hdue' => ?_⟩
      have hlt := hdue'.lt
      rw [List.length_append, List.length_singleton] at hlt
      rcases Nat.lt_succ_iff_lt_or_eq.mp hlt with hbefore | rfl
      · exact hlast j v hij ((dueAt_append hbefore last).mp hdue')
      · exact hnone v hdue'

theorem shouldSave_iff [DecidableEq χ] :
    c.shouldSave value every = true ↔
      c.lastSavedValue ≠ some value ∧ c.processedCount % every = 0 := by
  unfold shouldSave
  by_cases h : c.lastSavedValue = some value
  · simp [h]
  · simp [h]

end CheckpointState

namespace DeliveryEngine

variable (d : DeliveryEngine α χ) [DecidableEq χ]

/-- The counter and the pending checkpoint after one more record is prepared. -/
def prepareNext (p : CheckpointState χ × Option (Checkpoint χ × ℕ)) (checkpoint : Option χ) :
    CheckpointState χ × Option (Checkpoint χ × ℕ) :=
  match d.checkpointStore, checkpoint with
  | true, some value =>
    let c := p.1.incrementBy 1
    (c, if c.shouldSave value d.checkpointEvery then
        some (d.checkpointOf value, (p.2.map Prod.snd).getD 0 + 1) else p.2)
  | _, _ => p

section Committing

variable {d} {h : Environment α χ} {w : RunWorld ℓ α χ}

/-- Without a store nothing is prepared. -/
theorem foldl_prepareNext_noStore (hstore : d.checkpointStore = false)
    (p : CheckpointState χ × Option (Checkpoint χ × ℕ)) (checkpoints : List (Option χ)) :
    checkpoints.foldl d.prepareNext p = p := by
  induction checkpoints with
  | nil => rfl
  | cons checkpoint checkpoints ih =>
    have hnext : d.prepareNext p checkpoint = p := by
      unfold prepareNext
      rw [hstore]
    rw [List.foldl_cons, hnext, ih]

/-- What is pending after all records is the checkpoint that is due last. -/
theorem foldl_prepareNext (hstore : d.checkpointStore = true) (c : CheckpointState χ)
    (checkpoints : List (Option χ)) :
    (checkpoints.foldl d.prepareNext (c, none)).1 =
      c.incrementBy (checkpoints.countP Option.isSome) ∧
    ∃ due : Option χ,
      (checkpoints.foldl d.prepareNext (c, none)).2.map Prod.fst = due.map d.checkpointOf ∧
      ∀ value, due = some value ↔ c.LastDue d.checkpointEvery checkpoints value := by
  induction checkpoints using List.reverseRecOn with
  | nil =>
    refine ⟨rfl, none, rfl, fun value => ⟨nofun, ?_⟩⟩
    rintro ⟨i, hdue, -⟩
    exact absurd hdue.lt (Nat.not_lt_zero i)
  | append_singleton checkpoints last ih =>
    obtain ⟨hcount, due, hpending, hdue⟩ := ih
    rw [List.foldl_append, List.foldl_cons, List.foldl_nil]
    generalize checkpoints.foldl d.prepareNext (c, none) = p at hcount hpending ⊢
    unfold prepareNext
    rw [hstore]
    cases last with
    | none =>
      have hnone : ∀ v, ¬ c.DueAt d.checkpointEvery (checkpoints ++ [none]) checkpoints.length v := by
        intro v hv
        exact absurd ((CheckpointState.dueAt_last none).mp hv).1 nofun
      refine ⟨?_, due, hpending, fun value => ?_⟩
      · rw [hcount, List.countP_append]
        rfl
      · rw [CheckpointState.lastDue_append, hdue]
        exact ⟨fun h => .inr ⟨hnone, h⟩, fun h => h.elim (fun hv => absurd hv (hnone value)) And.right⟩
    | some value =>
      dsimp only
      rw [hcount]
      have hincrement : (c.incrementBy (checkpoints.countP Option.isSome)).incrementBy 1 =
          c.incrementBy ((checkpoints ++ [some value]).countP Option.isSome) := by
        rw [List.countP_append]
        exact congrArg (CheckpointState.mk · c.lastSavedValue) (Nat.add_assoc ..)
      rw [hincrement]
      have hsave : (c.incrementBy ((checkpoints ++ [some value]).countP Option.isSome)).shouldSave
          value d.checkpointEvery = true ↔
          c.DueAt d.checkpointEvery (checkpoints ++ [some value]) checkpoints.length value := by
        rw [CheckpointState.shouldSave_iff, CheckpointState.dueAt_last, List.countP_append]
        exact ⟨fun h => ⟨rfl, h.1, h.2⟩, And.right⟩
      refine ⟨rfl, ?_⟩
      by_cases hlands :
          c.DueAt d.checkpointEvery (checkpoints ++ [some value]) checkpoints.length value
      · rw [if_pos (hsave.mpr hlands)]
        refine ⟨some value, rfl, fun v => ?_⟩
        rw [CheckpointState.lastDue_append]
        constructor
        · rintro hv
          obtain rfl := Option.some.inj hv
          exact .inl hlands
        · rintro (hv | ⟨hnone, -⟩)
          · exact ((CheckpointState.dueAt_last _).mp hv).1
          · exact absurd hlands (hnone value)
      · rw [if_neg (mt hsave.mp hlands)]
        have hnone : ∀ v,
            ¬ c.DueAt d.checkpointEvery (checkpoints ++ [some value]) checkpoints.length v := by
          intro v hv
          obtain rfl := Option.some.inj ((CheckpointState.dueAt_last _).mp hv).1
          exact hlands hv
        refine ⟨due, hpending, fun v => ?_⟩
        rw [CheckpointState.lastDue_append, hdue]
        exact ⟨fun h => .inr ⟨hnone, h⟩, fun h => h.elim (fun hv => absurd hv (hnone v)) And.right⟩

/-- Counting records moves the counter and returns the checkpoint if it is due. -/
theorem run_countProcessed (value : χ) (n : ℕ) (w : RunWorld ℓ α χ) :
    (d.countProcessed value n).run h w =
      (.returned (if (w.state.checkpointState.incrementBy n).shouldSave value d.checkpointEvery
          then some (d.checkpointOf value) else none),
        w.write { w.state with checkpointState := w.state.checkpointState.incrementBy n }) := by
  rw [countProcessed, run_bind_returned h (run_modify h w _), run_bind_returned h (run_read h _)]
  change (if (w.state.checkpointState.incrementBy n).shouldSave value d.checkpointEvery = true
    then _ else _ : Delivery ℓ α χ (Option (Checkpoint χ))).run h _ = _
  split
  · rfl
  · rfl

/-- Preparing one record moves the counter and what is pending. -/
theorem run_preparePending_eq (pending : PendingCommit χ) (checkpoint : Option χ) (hooks : List Hook)
    (w : RunWorld ℓ α χ) :
    (d.preparePending pending checkpoint hooks).run h w =
      (.returned ⟨(d.prepareNext (w.state.checkpointState, pending.checkpoint) checkpoint).2,
          pending.hooks ++ hooks⟩,
        w.write { w.state with checkpointState :=
          (d.prepareNext (w.state.checkpointState, pending.checkpoint) checkpoint).1 }) := by
  unfold preparePending prepareCheckpoint prepareNext
  cases d.checkpointStore with
  | false => rfl
  | true =>
    cases checkpoint with
    | none => rfl
    | some value =>
      dsimp only
      rw [run_bind_returned h (run_countProcessed value 1 w)]
      by_cases hsave :
          (w.state.checkpointState.incrementBy 1).shouldSave value d.checkpointEvery = true
      · rw [if_pos hsave, if_pos hsave]
        rfl
      · rw [if_neg hsave, if_neg hsave]
        rfl

/-- The plain flush commits a batch that was written as a whole: all records are prepared, then the
commit is finished. -/
theorem run_commitSuccessFrom (batch : List (PendingWrite α χ)) (pending : PendingCommit χ)
    (w : RunWorld ℓ α χ) :
    (d.commitSuccessFrom pending batch).run h w =
      (d.finishCommit ⟨((batch.map PendingWrite.checkpoint).foldl d.prepareNext
          (w.state.checkpointState, pending.checkpoint)).2,
          pending.hooks ++ batch.flatMap PendingWrite.onSuccess⟩).run h
        (w.write { w.state with checkpointState :=
          ((batch.map PendingWrite.checkpoint).foldl d.prepareNext
            (w.state.checkpointState, pending.checkpoint)).1 }) := by
  induction batch generalizing pending w with
  | nil =>
    rw [List.flatMap_nil, List.append_nil]
    rfl
  | cons item batch ih =>
    rw [commitSuccessFrom, run_bind_returned h (run_preparePending_eq pending _ _ w), ih,
      List.flatMap_cons, List.append_assoc]
    rfl

/-- The direct flush saves one checkpoint for a batch that was written as a whole. -/
theorem run_saveBatchCheckpoint (hstore : d.checkpointStore = true)
    {batch : List (PendingWrite α χ)} (hbatch : batch ≠ []) (w : RunWorld ℓ α χ) :
    ∃ (due : Option χ) (c : CheckpointState χ),
      (d.saveBatchCheckpoint (batch.getLast?.bind PendingWrite.checkpoint) batch.length).run h w =
        (d.persistPending (due.map fun value => (d.checkpointOf value, batch.length))).run h
          (w.write { w.state with checkpointState := c }) ∧
      ∀ value, due = some value ↔ w.state.checkpointState.BatchDue d.checkpointEvery
        (batch.map PendingWrite.checkpoint) value := by
  have hlast : (batch.map PendingWrite.checkpoint).getLast? =
      batch.getLast?.map PendingWrite.checkpoint := List.getLast?_map
  unfold saveBatchCheckpoint
  rw [hstore]
  obtain ⟨item, hitem⟩ := Option.isSome_iff_exists.mp (List.getLast?_isSome.mpr hbatch)
  rw [hitem, Option.map_some] at hlast
  rw [hitem, Option.bind_some]
  cases hcheckpoint : item.checkpoint with
  | none =>
    refine ⟨none, w.state.checkpointState, rfl, fun value => ⟨nofun, fun hdue => ?_⟩⟩
    have hget := hlast.symm.trans hdue.last
    rw [hcheckpoint] at hget
    cases hget
  | some value =>
    have hlength : ¬ batch.length = 0 := mt List.length_eq_zero_iff.mp hbatch
    dsimp only
    rw [if_neg hlength, run_bind_returned h (run_countProcessed value batch.length w)]
    by_cases hsave : (w.state.checkpointState.incrementBy batch.length).shouldSave value
      d.checkpointEvery = true
    · rw [if_pos hsave]
      refine ⟨some value, _, rfl, fun v => ⟨?_, fun hdue => ?_⟩⟩
      · rintro hv
        obtain rfl := Option.some.inj hv
        obtain ⟨hfresh, hlands⟩ := CheckpointState.shouldSave_iff.mp hsave
        refine ⟨hlast.trans (congrArg some hcheckpoint), hfresh, ?_⟩
        rwa [List.length_map]
      · have hget := hlast.symm.trans hdue.last
        rw [hcheckpoint] at hget
        exact Option.some.inj hget
    · rw [if_neg hsave]
      refine ⟨none, _, rfl, fun v => ⟨nofun, fun hdue => ?_⟩⟩
      have hget := hlast.symm.trans hdue.last
      rw [hcheckpoint] at hget
      obtain rfl := Option.some.inj (Option.some.inj hget)
      have hlands := hdue.lands
      rw [List.length_map] at hlands
      have hsaves : (w.state.checkpointState.incrementBy batch.length).shouldSave value
          d.checkpointEvery = true := CheckpointState.shouldSave_iff.mpr ⟨hdue.fresh, hlands⟩
      exact absurd hsaves hsave

omit [DecidableEq χ] in
/-- Saving the same checkpoint goes alike, whatever the checkpoint states and the batch sizes. -/
theorem lockstep_persistPending {p q : Option (Checkpoint χ × ℕ)}
    (hpq : p.map Prod.fst = q.map Prod.fst) :
    Lockstep SameCounters (d.persistPending p : Delivery ℓ α χ Unit) (d.persistPending q) := by
  cases p with
  | none =>
    cases q with
    | none => exact .ret ()
    | some q => cases hpq
  | some p =>
    cases q with
    | none => cases hpq
    | some q =>
      obtain ⟨checkpoint, n⟩ := p
      obtain ⟨checkpoint', n'⟩ := q
      obtain rfl := Option.some.inj hpq
      have hcount : ∀ f g : RunState ℓ α χ → RunState ℓ α χ,
          (∀ s t, SameCounters s t → SameCounters (f s) (g t)) →
          Lockstep SameCounters (Program.modify f : Delivery ℓ α χ Unit) (Program.modify g) :=
        fun _ _ hfg => .modify hfg
      unfold persistPending persistCheckpoint catchException
      refine .bind (.bind (.attempt (.bind lockstep_assertRunFenceActive fun _ => ?_)) fun r => ?_)
        fun saved => ?_
      · split
        · exact .bind (.raise _) fun _ => .bind (lockstep_invoke _) fun _ => .ret _
        · exact .bind (lockstep_invoke _) fun _ => .ret _
      · cases r with
        | ok saved => exact .ret saved
        | error exc =>
          dsimp only
          split
          · refine .bind (hcount _ _ fun s t hs => ⟨hs.written, hs.errored, hs.dropped⟩) fun _ => ?_
            split
            · exact .ret false
            · exact .raise _
          · exact .raise exc
      · refine .bind (hcount _ _ fun s t hs => ⟨hs.written, hs.errored, hs.dropped⟩) fun _ => ?_
        split
        · exact hcount _ _ fun s t hs => ⟨hs.written, hs.errored, hs.dropped⟩
        · exact .ret ()

omit [DecidableEq χ] in
theorem lockstep_runHooks (hooks : List Hook) :
    Lockstep SameCounters (runHooks hooks : Delivery ℓ α χ Unit) (runHooks hooks) := by
  induction hooks with
  | nil => exact .ret ()
  | cons hook hooks ih => exact .bind (lockstep_invoke _) fun _ => ih

omit [DecidableEq χ] in
theorem run_noteWritten (batch : List (PendingWrite α χ)) (w : RunWorld ℓ α χ) :
    ∃ t, (noteWritten batch : Delivery ℓ α χ Unit).run h w =
      (.returned (), ⟨w.state, w.trace ++ t⟩) := by
  induction batch generalizing w with
  | nil => exact ⟨[], by rw [List.append_nil]; rfl⟩
  | cons item batch ih =>
    obtain ⟨t, hrun⟩ := ih (w.mark (.settled item.checkpoint .written))
    refine ⟨.mark (.settled item.checkpoint .written) :: t, ?_⟩
    rw [noteWritten, run_bind_returned h (run_note h w _), hrun, World.mark_trace, List.append_assoc]
    rfl

omit [DecidableEq χ] in
/-- Both commits begin by counting and noting the batch as written. -/
theorem run_countNoteWritten (batch : List (PendingWrite α χ)) (w : RunWorld ℓ α χ) :
    ∃ v : RunWorld ℓ α χ, v.state.checkpointState = w.state.checkpointState ∧
      ∀ rest : Delivery ℓ α χ Unit,
        (countWritten batch.length >>= fun _ => noteWritten batch >>= fun _ => rest).run h w =
          rest.run h v := by
  obtain ⟨v, hcount, hstate⟩ : ∃ v : RunWorld ℓ α χ,
      (countWritten batch.length : Delivery ℓ α χ Unit).run h w = (.returned (), v) ∧
        v.state.checkpointState = w.state.checkpointState := ⟨_, rfl, rfl⟩
  obtain ⟨t, hnote⟩ := run_noteWritten (h := h) batch v
  refine ⟨⟨v.state, v.trace ++ t⟩, hstate, fun rest => ?_⟩
  rw [run_bind_returned h hcount, run_bind_returned h hnote]

/-- Both commits save the checkpoint that is due in their way of counting, and run the hooks. -/
theorem run_commits {batch : List (PendingWrite α χ)} (hbatch : batch ≠ []) (w : RunWorld ℓ α χ) :
    ∃ (p p' : Option (Checkpoint χ × ℕ)) (due due' : Option χ) (v v' : RunWorld ℓ α χ),
      (d.commitDirect batch).run h w = (do
        d.persistPending p
        runHooks (batch.flatMap PendingWrite.onSuccess)).run h v ∧
      (d.commitPendingWriteSuccessBatch batch).run h w = (do
        d.persistPending p'
        runHooks (batch.flatMap PendingWrite.onSuccess)).run h v' ∧
      Alongside SameCounters v v' ∧
      p.map Prod.fst = due.map d.checkpointOf ∧ p'.map Prod.fst = due'.map d.checkpointOf ∧
      (∀ value, due = some value ↔ d.checkpointStore = true ∧
        w.state.checkpointState.BatchDue d.checkpointEvery
          (batch.map PendingWrite.checkpoint) value) ∧
      ∀ value, due' = some value ↔ d.checkpointStore = true ∧
        w.state.checkpointState.LastDue d.checkpointEvery
          (batch.map PendingWrite.checkpoint) value := by
  obtain ⟨v, hv, hprefix⟩ := run_countNoteWritten (h := h) batch w
  rw [commitDirect, commitPendingWriteSuccessBatch, hprefix, hprefix, run_commitSuccessFrom,
    finishCommit, ← hv]
  cases hstore : d.checkpointStore with
  | false =>
    rw [foldl_prepareNext_noStore hstore]
    refine ⟨none, none, none, none, v, _, rfl, rfl, ⟨⟨rfl, rfl, rfl⟩, rfl⟩, rfl, rfl,
      fun _ => ⟨nofun, fun hdue => ?_⟩, fun _ => ⟨nofun, fun hdue => ?_⟩⟩
    · cases hdue.1
    · cases hdue.1
  | true =>
    obtain ⟨due, c, hsave, hdue⟩ := run_saveBatchCheckpoint (h := h) hstore hbatch v
    obtain ⟨-, due', hpending, hdue'⟩ := foldl_prepareNext hstore v.state.checkpointState
      (batch.map PendingWrite.checkpoint)
    have hfst : (due.map fun value => (d.checkpointOf value, batch.length)).map Prod.fst =
        due.map d.checkpointOf := by
      rw [Option.map_map]
      rfl
    refine ⟨_, _, due, due', v.write { v.state with checkpointState := c }, _, ?_, rfl,
      ⟨⟨rfl, rfl, rfl⟩, rfl⟩, hfst, hpending,
      fun value => (hdue value).trans ⟨fun hd => ⟨rfl, hd⟩, And.right⟩,
      fun value => (hdue' value).trans ⟨fun hd => ⟨rfl, hd⟩, And.right⟩⟩
    change (d.saveBatchCheckpoint _ _ >>= fun _ => runHooks _).run h v = _
    rw [run_bind, run_bind, hsave]

end Committing

/-! ## The flushes agree -/

section Agreement

variable {d} {h : Environment α χ} {w : RunWorld ℓ α χ}

variable {items : List (PendingWrite α χ)}

/-- A batch that was written as a whole is committed alike if the same checkpoint is due. -/
theorem sameFlush_commits {batch : List (PendingWrite α χ)} (hbatch : batch ≠ [])
    (hdue : d.checkpointStore = true → w.state.checkpointState.SameDue d.checkpointEvery
      (batch.map PendingWrite.checkpoint)) :
    SameFlush ((d.commitDirect batch).run h w) ((d.commitPendingWriteSuccessBatch batch).run h w) := by
  obtain ⟨p, p', due, due', v, v', hdirect, hplain, halong, hp, hp', hbatchDue, hlastDue⟩ :=
    run_commits (h := h) hbatch w
  have hsame : due = due' := by
    refine Option.ext fun value => ?_
    rw [hbatchDue, hlastDue]
    exact and_congr_right fun hstore => (hdue hstore value).symm
  have hstep : Lockstep SameCounters
      (do d.persistPending p; runHooks (batch.flatMap PendingWrite.onSuccess) : Delivery ℓ α χ Unit)
      (do d.persistPending p'; runHooks (batch.flatMap PendingWrite.onSuccess)) :=
    .bind (lockstep_persistPending (by rw [hp, hp', hsame])) fun _ => lockstep_runHooks _
  rw [hdirect, hplain]
  obtain ⟨houtcome, halong'⟩ := hstep h v v' halong
  exact .of_alongside houtcome halong'

variable [DecidableEq α]

/-- Handing the same batch to both commits. -/
theorem sameFlush_flushWith {batch : List (PendingWrite α χ)} (hbatch : batch ≠ [])
    (hdue : d.AllWritten h batch w → d.checkpointStore = true →
      w.state.checkpointState.SameDue d.checkpointEvery (batch.map PendingWrite.checkpoint)) :
    SameFlush ((d.flushWith d.commitDirect batch).run h w)
      ((d.flushWith d.commitPendingWriteSuccessBatch batch).run h w) := by
  unfold flushWith
  rw [run_bind, run_bind]
  cases hrun : (d.writeItems batch).run h w with
  | mk outcome v =>
    cases outcome with
    | raised e => exact .refl _
    | hung => exact .refl _
    | returned written =>
      cases written with
      | none => exact .refl _
      | some results =>
        have hwrite := run_writeBatch_of_writeItems hrun
        unfold validateWriteResultCount
        dsimp only
        by_cases hlength : results.length = batch.length
        · rw [if_neg (not_not.mpr hlength)]
          by_cases hok : results.all WriteResult.ok = true
          · rw [if_pos hok, if_pos hok]
            have hstate := checkpointState_writeBatch (d := d) (h := h)
              (batch.map PendingWrite.processed) w
            rw [hwrite] at hstate
            refine sameFlush_commits hbatch fun hstore => ?_
            rw [hstate]
            exact hdue ⟨results, v, hwrite, hlength, hok⟩ hstore
          · rw [if_neg hok, if_neg hok]
            exact .refl _
        · rw [if_pos hlength]
          exact .refl _

omit [DecidableEq α] [DecidableEq χ] in
/-- Whether the writer has written everything does not depend on the hooks that are collected. -/
theorem AllWritten.of_trace_eq {batch : List (PendingWrite α χ)} {v : RunWorld ℓ α χ}
    (hall : d.AllWritten h batch v) (htrace : v.trace = w.trace)
    (hprocessed : batch.map PendingWrite.processed = items.map PendingWrite.processed) :
    d.AllWritten h items w := by
  obtain ⟨results, v', hrun, hlength, hok⟩ := hall
  rw [hprocessed] at hrun
  have hstep := lockstep_writeBatch (d := d) (S := fun _ _ : RunState ℓ α χ => True)
    (fun _ _ _ _ _ => trivial) (items.map PendingWrite.processed) h v w ⟨trivial, htrace⟩
  rw [hrun] at hstep
  have hlengths := congrArg List.length hprocessed
  rw [List.length_map, List.length_map] at hlengths
  exact ⟨results, ((d.writeBatch (items.map PendingWrite.processed)).run h w).2,
    Prod.ext hstep.1.symm rfl, hlength.trans hlengths, hok⟩

/-- From an empty queue, the flushes agree unless a batch that was written as a whole has different
checkpoints due. -/
theorem flushesAgree_of_sameDue (hqueue : w.state.pendingWrites = [])
    (hdue : d.AllWritten h items w → d.checkpointStore = true →
      w.state.checkpointState.SameDue d.checkpointEvery (items.map PendingWrite.checkpoint)) :
    d.FlushesAgree h items w := by
  unfold FlushesAgree
  by_cases hitems : items = []
  · subst hitems
    have hplain : (d.queueAndFlush []).run h w = (.returned (), w) := by
      rw [queueAndFlush, queueItems, run_bind_returned h rfl, flushPendingWritesOnce,
        run_bind_returned h (run_read h w), hqueue]
      rfl
    rw [hplain]
    exact .refl _
  · obtain ⟨batch, v, hdirect, hplain, hprocessed, hcheckpoint, htrace, hstate⟩ :=
      run_flushes (d := d) (h := h) hitems hqueue
    have hbatch : batch ≠ [] := by
      rintro rfl
      exact hitems (List.map_eq_nil_iff.mp hprocessed.symm)
    rw [hdirect, hplain]
    refine sameFlush_flushWith hbatch fun hall hstore => ?_
    rw [hcheckpoint, hstate]
    exact hdue (hall.of_trace_eq htrace hprocessed) hstore

/-! ## Only then -/

omit [DecidableEq α] [DecidableEq χ] in
/-- Hooks save nothing. -/
theorem saves_runHooks (hooks : List Hook) (w : RunWorld ℓ α χ) :
    saves ((runHooks hooks : Delivery ℓ α χ Unit).run h w).2.trace = saves w.trace := by
  induction hooks generalizing w with
  | nil => rfl
  | cons hook hooks ih =>
    have hcalled : ∀ r, saves (w.called (.await (.successHook hook)) r).trace = saves w.trace := by
      intro r
      rw [World.called_trace, saves_append, saves_called rfl, List.append_nil]
    unfold runHooks invoke
    rw [run_bind, run_bind, run_perform]
    dsimp only
    cases h w.trace (.await (.successHook hook)) with
    | ok u => exact (ih _).trans (hcalled _)
    | error exc => exact hcalled _

omit [DecidableEq α] [DecidableEq χ] in
/-- A commit saves what is due, whatever becomes of its hooks. -/
theorem saves_persistPending (hd : d.AcceptsSaves h) {p : Option (Checkpoint χ × ℕ)}
    {due : Option χ} (hp : p.map Prod.fst = due.map d.checkpointOf) (hooks : List Hook)
    (v : RunWorld ℓ α χ) :
    saves ((do d.persistPending p; runHooks hooks : Delivery ℓ α χ Unit).run h v).2.trace =
      saves v.trace ++ due.toList := by
  cases p with
  | none =>
    obtain rfl : due = none := by
      cases due with
      | none => rfl
      | some value => cases hp
    rw [persistPending, run_bind_returned h rfl, saves_runHooks, Option.toList_none, List.append_nil]
  | some p =>
    obtain ⟨checkpoint, batchSize⟩ := p
    cases due with
    | none => cases hp
    | some value =>
      obtain rfl : checkpoint = d.checkpointOf value := Option.some.inj hp
      have hsafe := (safe_persistCheckpoint_accepted hd (d.checkpointOf value) batchSize (v := v)
        (w := v)).run_answered
      rw [persistPending, run_bind]
      generalize (d.persistCheckpoint (d.checkpointOf value) batchSize).run h v = r at hsafe
      obtain ⟨outcome, v'⟩ := r
      cases outcome with
      | returned u =>
        obtain ⟨-, hsaves, -⟩ := hsafe
        exact (saves_runHooks hooks v').trans hsaves
      | raised e => exact hsafe.elim fun _ hfalse => hfalse.elim
      | hung => exact hsafe.elim

omit [DecidableEq α] in
/-- Where nothing goes wrong, the writer writes the batch as a whole. -/
theorem run_writeItems_undisturbed (batch : List (PendingWrite α χ)) (w : RunWorld ℓ α χ) :
    ∃ v : RunWorld ℓ α χ, (d.writeItems batch).run undisturbed w =
        (.returned (some (batch.map fun _ => ⟨true, []⟩)), v) ∧
      v.state.checkpointState = w.state.checkpointState := by
  obtain ⟨v, hwrite⟩ : ∃ v : RunWorld ℓ α χ,
      (d.writeBatch (batch.map PendingWrite.processed)).run undisturbed w =
        (.returned ((batch.map PendingWrite.processed).map fun _ => ⟨true, []⟩), v) := by
    unfold writeBatch assertRunFenceActive
    cases d.runFence with
    | false => exact ⟨_, rfl⟩
    | true => exact ⟨_, rfl⟩
  have hstate := checkpointState_writeBatch (d := d) (h := undisturbed)
    (batch.map PendingWrite.processed) w
  rw [hwrite] at hstate
  refine ⟨v, ?_, hstate⟩
  rw [writeItems, catchSinkException, catchException, run_bind, run_attempt,
    run_bind_returned _ hwrite, List.map_map]
  rfl

/-- From an empty queue, and where nothing goes wrong, the flushes agree only if the same checkpoint
is due. -/
theorem sameDue_of_flushesAgree (hqueue : w.state.pendingWrites = [])
    (hstore : d.checkpointStore = true) (hagree : d.FlushesAgree undisturbed items w) :
    w.state.checkpointState.SameDue d.checkpointEvery (items.map PendingWrite.checkpoint) := by
  have hd : d.AcceptsSaves undisturbed := ⟨hstore, fun _ _ => rfl, fun _ _ _ => rfl⟩
  by_cases hitems : items = []
  · subst hitems
    intro value
    constructor
    · rintro ⟨i, hdue, -⟩
      exact absurd hdue.lt (Nat.not_lt_zero i)
    · rintro ⟨hlast, -, -⟩
      cases hlast
  · obtain ⟨batch, v, hdirect, hplain, hprocessed, hcheckpoint, -, hstate⟩ :=
      run_flushes (d := d) (h := undisturbed) hitems hqueue
    have hbatch : batch ≠ [] := by
      rintro rfl
      exact hitems (List.map_eq_nil_iff.mp hprocessed.symm)
    obtain ⟨v', hwritten, hstate'⟩ := run_writeItems_undisturbed (d := d) batch v
    -- the writer has written every record, so both flushes commit the batch
    have hcommit : ∀ commit : List (PendingWrite α χ) → Delivery ℓ α χ Unit,
        (d.flushWith commit batch).run undisturbed v = (commit batch).run undisturbed v' := by
      intro commit
      have hlength : ¬ (batch.map fun _ => (⟨true, []⟩ : WriteResult)).length ≠ batch.length :=
        not_not.mpr (List.length_map _)
      have hok : (batch.map fun _ => (⟨true, []⟩ : WriteResult)).all WriteResult.ok = true := by
        rw [List.all_map]
        exact List.all_eq_true.mpr fun _ _ => rfl
      unfold flushWith validateWriteResultCount
      rw [run_bind_returned _ hwritten]
      dsimp only
      rw [if_neg hlength, if_pos hok]
      rfl
    obtain ⟨p, p', due, due', u, u', hdirect', hplain', halong, hp, hp', hbatchDue, hlastDue⟩ :=
      run_commits (d := d) (h := undisturbed) hbatch v'
    have hsaves := hagree.saves
    rw [hdirect, hplain, hcommit, hcommit, hdirect', hplain', saves_persistPending hd hp,
      saves_persistPending hd hp', halong.trace, List.append_cancel_left_eq] at hsaves
    have hsame : due = due' := by
      cases due with
      | none =>
        cases due' with
        | none => rfl
        | some value => cases hsaves
      | some value =>
        cases due' with
        | none => cases hsaves
        | some value' => rw [List.singleton_inj.mp hsaves]
    intro value
    have hiff := (hbatchDue value).symm.trans ((by rw [hsame] : _ ↔ _).trans (hlastDue value))
    rw [hstate', hstate, hcheckpoint] at hiff
    exact ⟨fun hlast => (hiff.mpr ⟨hstore, hlast⟩).2, fun hlast => (hiff.mp ⟨hstore, hlast⟩).2⟩

/-- A batch of the given size is interrupted by one error, and a batch of another size by another
one. -/
def interruptedAt (n : ℕ) : Environment α χ
  | _, .await (.writeBatch records) =>
    .error (if records.length = n then .cancelled else .keyboardInterrupt)
  | t, o => undisturbed t o

omit [DecidableEq α] in
theorem run_writeItems_interruptedAt (n : ℕ) (batch : List (PendingWrite α χ)) (w : RunWorld ℓ α χ) :
    ∃ v, (d.writeItems batch).run (interruptedAt n) w =
      (.raised (if batch.length = n then .cancelled else .keyboardInterrupt), v) := by
  obtain ⟨v, hwrite⟩ : ∃ v : RunWorld ℓ α χ,
      (d.writeBatch (batch.map PendingWrite.processed)).run (interruptedAt n) w =
        (.raised (if (batch.map PendingWrite.processed).length = n then .cancelled
          else .keyboardInterrupt), v) := by
    unfold writeBatch assertRunFenceActive
    cases d.runFence with
    | false => exact ⟨_, rfl⟩
    | true => exact ⟨_, rfl⟩
  rw [List.length_map] at hwrite
  refine ⟨v, ?_⟩
  rw [writeItems, catchSinkException, catchException, run_bind, run_attempt,
    run_bind_raised _ hwrite]
  by_cases hn : batch.length = n
  · rw [if_pos hn]
    rfl
  · rw [if_neg hn]
    rfl

theorem flushBatch_interruptedAt {n : ℕ} {batch : List (PendingWrite α χ)} (hn : ¬ batch.length = n)
    (w : RunWorld ℓ α χ) :
    ((d.flushBatch batch).run (interruptedAt n) w).1 = .raised .keyboardInterrupt := by
  obtain ⟨v, hwrite⟩ := run_writeItems_interruptedAt (d := d) n batch w
  rw [if_neg hn] at hwrite
  rw [flushBatch, run_bind_raised _ hwrite]

/-- A flush takes everything that is queued, so the flushes agree from an empty queue only. -/
theorem pendingWrites_eq_nil (hagree : ∀ h, d.FlushesAgree h items w) :
    w.state.pendingWrites = [] := by
  by_contra hqueue
  obtain ⟨f, hcollect, hqueued, hmaps⟩ := run_collectHooks (interruptedAt items.length) (ℓ := ℓ) items
  have hlength : (f w.state.successHooks).1.length = items.length := by
    have hlengths := congrArg List.length (hmaps w.state.successHooks).1
    rwa [List.length_map, List.length_map] at hlengths
  have hlonger : ¬ (w.state.pendingWrites ++ (f w.state.successHooks).1).length = items.length := by
    rw [List.length_append, hlength]
    have hpos := List.length_pos_iff.mpr hqueue
    omega
  have hplain : ((d.queueAndFlush items).run (interruptedAt items.length) w).1 =
      .raised .keyboardInterrupt := by
    have hne : w.state.pendingWrites ++ (f w.state.successHooks).1 ≠ [] :=
      List.append_ne_nil_of_left_ne_nil hqueue _
    rw [queueAndFlush, run_bind_returned _ (hqueued w), run_flushPendingWritesOnce hne]
    exact flushBatch_interruptedAt hlonger _
  have hdirect : ((d.flushBatchDirect items).run (interruptedAt items.length) w).1 ≠
      .raised .keyboardInterrupt := by
    unfold flushBatchDirect
    split
    · nofun
    · obtain ⟨v, hwrite⟩ := run_writeItems_interruptedAt (d := d) items.length
        (f w.state.successHooks).1 _
      rw [if_pos hlength] at hwrite
      rw [run_bind_returned _ (hcollect w), run_bind_raised _ hwrite]
      nofun
  exact hdirect ((hagree _).outcome.trans hplain)

end Agreement

/-- The direct flush agrees with the plain one, whatever the world answers, exactly if nothing else is
queued and the same checkpoint is due; and from an empty queue a different checkpoint makes a
difference only when every record was written. -/
theorem flushBatchDirect_agrees [DecidableEq α] (items : List (PendingWrite α χ))
    (w : RunWorld ℓ α χ) :
    ((∀ h, d.FlushesAgree h items w) ↔
      w.state.pendingWrites = [] ∧ (d.checkpointStore = true →
        w.state.checkpointState.SameDue d.checkpointEvery (items.map PendingWrite.checkpoint))) ∧
    ∀ h, w.state.pendingWrites = [] →
      (d.AllWritten h items w → d.checkpointStore = true →
        w.state.checkpointState.SameDue d.checkpointEvery (items.map PendingWrite.checkpoint)) →
      d.FlushesAgree h items w := by
  refine ⟨⟨fun hagree => ?_, ?_⟩, fun h hqueue hdue => flushesAgree_of_sameDue hqueue hdue⟩
  · have hqueue := pendingWrites_eq_nil hagree
    exact ⟨hqueue, fun hstore => sameDue_of_flushesAgree hqueue hstore (hagree _)⟩
  · rintro ⟨hqueue, hdue⟩ h
    exact flushesAgree_of_sameDue hqueue fun _ => hdue

/-- Four records with a checkpoint each, where every third record is due: the plain flush saves the
third checkpoint, and the direct one nothing. -/
theorem not_flushBatchDirect_agrees_everyThree :
    ¬ everyThree.FlushesAgree undisturbed
      [⟨10, 10, some 1, []⟩, ⟨20, 20, some 2, []⟩, ⟨30, 30, some 3, []⟩, ⟨40, 40, some 4, []⟩]
      ⟨RunState.initial () none, []⟩ := by
  intro hagree
  have hsame := sameDue_of_flushesAgree rfl rfl hagree 3
  have hlast : CheckpointState.LastDue ⟨0, none⟩ 3 [some 1, some 2, some 3, some 4] 3 := by
    refine ⟨2, ⟨rfl, nofun, rfl⟩, fun j v hj hdue => ?_⟩
    obtain rfl : j = 3 := by
      have hlt : j < 4 := hdue.lt
      omega
    cases hdue.lands
  cases (hsame.mp hlast).last

end DeliveryEngine

end AgoraEtl
