import AgoraEtl.Dlq.Store
import AgoraEtl.Failures

/-!
# Replaying dead-lettered records

The loop of `agora dlq replay`. Every record goes through the same steps: choose a payload, build a
replay pipeline, mark the attempt in the dead-letter sink, run the pipeline on the one record, and
acknowledge the record if the run has written it. A step that fails ends the record, not the command.

How the steps end is given for each record, so that all sequences of endings are covered. What the
sink has to offer is stated as laws of a structure; `sqliteSink` has them.
-/

namespace AgoraEtl.Dlq

variable {V T σ κ : Type}

/-! ### The dead-letter sink -/

/-- A dead-letter sink over a storage `σ`. `stored` is the attempt with which the record of a key is
stored, if it is. Marking an attempt leaves every other record alone, and so does acknowledging. -/
structure DLQSink (V T σ κ : Type) where
  key : DLQRecord V T → Option κ
  stored : σ → κ → Option Int
  replay : σ → DLQRecord V T → σ × DLQRecord V T
  acknowledge : σ → DLQRecord V T → σ
  key_replay : ∀ s record, key (replay s record).2 = key record
  stored_replay : ∀ s record k k', key record = some k →
    stored (replay s record).1 k' = stored s k' ∨
      (k' = k ∧ stored (replay s record).1 k' = (stored s k').map fun _ => record.attempt + 1)
  stored_acknowledge : ∀ s record k k', key record = some k → k' ≠ k →
    stored (acknowledge s record) k' = stored s k'

/-- The attempt in the first row with the identifier. -/
def Database.storedAttempt (db : Database) (id : ℕ) : Option Int :=
  (db.rows.find? fun row => row.id = id).map fun row => row.attempt

theorem Database.storedAttempt_updateAttempt (codec : RowCodec V T) (db : Database)
    {record : DLQRecord V T} {id : ℕ} (hid : record.storageId = some id) (newAttempt : Int)
    (id' : ℕ) :
    (db.updateAttempt codec record newAttempt).storedAttempt id' =
      if id' = id then (db.storedAttempt id').map fun _ => newAttempt else db.storedAttempt id' := by
  have htarget : db.target codec record = some id := by simp [target, hid]
  unfold storedAttempt updateAttempt
  rw [htarget]
  dsimp only
  induction db.rows with
  | nil => simp
  | cons row rows ih =>
    simp only [List.map_cons, List.find?_cons, Option.some.injEq]
    by_cases hrow : row.id = id'
    · by_cases hsame : id = row.id
      · simp [hsame, hrow]
      · have hne : ¬ id = id' := fun h => hsame (by rw [hrow, h])
        have hne' : ¬ id' = id := fun h => hne h.symm
        simp [hrow, hne, hne']
    · by_cases hsame : id = row.id
      · simpa [hsame, hrow] using ih
      · simpa [hsame, hrow] using ih

theorem Database.storedAttempt_delete (codec : RowCodec V T) (db : Database)
    {record : DLQRecord V T} {id id' : ℕ} (hid : record.storageId = some id) (hne : id' ≠ id) :
    (db.delete codec record).storedAttempt id' = db.storedAttempt id' := by
  have htarget : db.target codec record = some id := by simp [target, hid]
  unfold storedAttempt delete
  rw [htarget]
  dsimp only
  induction db.rows with
  | nil => simp
  | cons row rows ih =>
    by_cases hrow : row.id = id'
    · have hkept : some id ≠ some row.id := fun h => hne (by rw [← hrow, Option.some.inj h])
      rw [List.filter_cons_of_pos (by simpa using hkept)]
      simp [hrow]
    · by_cases hsame : some id = some row.id
      · rw [List.filter_cons_of_neg (by simpa using hsame)]
        simpa [hrow] using ih
      · rw [List.filter_cons_of_pos (by simpa using hsame)]
        simpa [hrow] using ih

/-- The SQLite sink, whose records are known by the identifiers of their rows. -/
def sqliteSink (codec : RowCodec V T) : DLQSink V T Database ℕ where
  key := DLQRecord.storageId
  stored := Database.storedAttempt
  replay := SQLiteDLQSink.replay codec
  acknowledge := SQLiteDLQSink.acknowledge codec
  key_replay _ _ := rfl
  stored_replay db record id id' hid := by
    have h := db.storedAttempt_updateAttempt codec hid (record.attempt + 1) id'
    by_cases hsame : id' = id
    · rw [if_pos hsame] at h
      exact .inr ⟨hsame, h⟩
    · rw [if_neg hsame] at h
      exact .inl h
  stored_acknowledge db _ _ _ hid hne := db.storedAttempt_delete codec hid hne

/-! ### The replay of one record -/

/-- `--mode`. -/
inductive ReplayMode where
  | pipeline
  | sink
  deriving DecidableEq

/-- `DLQRecord.replay_payload`. -/
def DLQRecord.replayPayload (record : DLQRecord V T) : ReplayMode → Option V
  | .pipeline =>
    (record.originalRecord.orElse fun _ => record.record).orElse fun _ => record.processedRecord
  | .sink =>
    (record.processedRecord.orElse fun _ => record.record).orElse fun _ => record.originalRecord

/-- What the command looks at in the summary of a replay run. -/
structure ReplaySummary where
  recordsErrored : ℕ
  recordsWritten : ℕ
  deriving DecidableEq

/-- How a call of the dead-letter sink ends; a call that raises may have been stored all the same. -/
inductive SinkOutcome where
  | returned
  | raised (exc : Exc) (stored : Bool)

/-- How the steps for one record end, as far as they are taken. -/
structure StepOutcomes where
  fetched : Except Exc Unit
  built : Except Exc Unit
  marked : SinkOutcome
  ran : Except Exc ReplaySummary
  acknowledged : SinkOutcome

/-- The steps of a replay. -/
inductive ReplayStep where
  | build
  | mark
  | run
  | acknowledge
  deriving DecidableEq

/-- How the replay of a record ends: an exception that is no `Exception` leaves the command. -/
inductive RecordEnd where
  | succeeded
  | failed
  | interrupted (exc : Exc)

/-- `except Exception as exc: failed += 1; continue`. -/
def RecordEnd.ofExc (exc : Exc) : RecordEnd := if exc.isException then .failed else .interrupted exc

/-- The arguments of the command that the loop uses. -/
structure ReplayArgs where
  mode : ReplayMode
  runId : Option String

/-- `_build_replay_pipeline`: the one record to run, through the chain of the pipeline or past it. -/
structure ReplayPipeline (V : Type) where
  payload : V
  throughChain : Bool

/-- `_build_replay_pipeline`. -/
def buildReplayPipeline (payload : V) (mode : ReplayMode) : ReplayPipeline V :=
  ⟨payload, decide (mode = .pipeline)⟩

/-- The run identifier; an empty override is none. -/
def ReplayArgs.replayRunId (args : ReplayArgs) (original updated : DLQRecord V T) : String :=
  match args.runId with
  | some runId => if runId = "" then defaultRunId else runId
  | none => defaultRunId
where
  /-- `_default_replay_run_id`. -/
  defaultRunId : String := s!"{original.runId}:replay:{updated.attempt}"

/-- The pipeline is run for the record: the mode takes the record, the pipeline has its payload and was
built, and the attempt was marked without an error. -/
structure ReplayArgs.Starts (args : ReplayArgs) (record : DLQRecord V T) (o : StepOutcomes)
    (pipeline : ReplayPipeline V) : Prop where
  eligible : ¬ (args.mode = .sink ∧ record.stage ≠ "sink_write")
  payload : ∃ payload, record.replayPayload args.mode = some payload ∧
    pipeline = buildReplayPipeline payload args.mode
  built : o.built = .ok ()
  marked : o.marked = .returned

/-- What was done about one record: the steps taken, in their order, the replay run that was started,
and the record that the sink was asked to acknowledge. -/
structure RecordReplay (V T σ : Type) where
  ending : RecordEnd
  steps : List ReplayStep
  started : Option (ReplayPipeline V × String)
  acknowledged : Option (DLQRecord V T)
  storage : σ

/-- The storage after a call of the sink. -/
def SinkOutcome.effect (outcome : SinkOutcome) (before after : σ) : σ :=
  match outcome with
  | .returned => after
  | .raised _ stored => if stored then after else before

/-- The body of the replay loop. -/
def replayRecord (sink : DLQSink V T σ κ) (args : ReplayArgs) (record : DLQRecord V T)
    (o : StepOutcomes) (storage : σ) : RecordReplay V T σ :=
  if args.mode = .sink ∧ record.stage ≠ "sink_write" then ⟨.failed, [], none, none, storage⟩
  else
    match record.replayPayload args.mode with
    | none => ⟨.failed, [], none, none, storage⟩
    | some payload =>
      let pipeline := buildReplayPipeline payload args.mode
      match o.built with
      | .error exc => ⟨.ofExc exc, [.build], none, none, storage⟩
      | .ok () =>
        let (after, updated) := sink.replay storage record
        let marked := o.marked.effect storage after
        match o.marked with
        | .raised exc _ => ⟨.ofExc exc, [.build, .mark], none, none, marked⟩
        | .returned =>
          let started := some (pipeline, args.replayRunId record updated)
          match o.ran with
          | .error exc => ⟨.ofExc exc, [.build, .mark, .run], started, none, marked⟩
          | .ok summary =>
            if summary.recordsErrored ≠ 0 then
              ⟨.failed, [.build, .mark, .run], started, none, marked⟩
            else if summary.recordsWritten ≠ 1 then
              ⟨.failed, [.build, .mark, .run], started, none, marked⟩
            else
              let acknowledged := o.acknowledged.effect marked (sink.acknowledge marked updated)
              match o.acknowledged with
              | .raised exc _ => ⟨.ofExc exc, [.build, .mark, .run, .acknowledge], started,
                  some updated, acknowledged⟩
              | .returned => ⟨.succeeded, [.build, .mark, .run, .acknowledge], started,
                  some updated, acknowledged⟩

/-- The replay run returned with no errored record and exactly one written record. -/
def StepOutcomes.Delivered (o : StepOutcomes) : Prop :=
  ∃ summary, o.ran = .ok summary ∧ summary.recordsErrored = 0 ∧ summary.recordsWritten = 1

/-- What is known of the replay of one record, whichever way it ends. -/
structure ReplaysRight (sink : DLQSink V T σ κ) (args : ReplayArgs) (record : DLQRecord V T)
    (o : StepOutcomes) (storage : σ) (r : RecordReplay V T σ) : Prop where
  /-- The steps are taken in their order. -/
  steps : r.steps <+: [.build, .mark, .run, .acknowledge]
  /-- An attempt is marked once a replay pipeline was built. -/
  built : .mark ∈ r.steps → o.built = .ok ()
  /-- The step of the run is that of a pipeline. -/
  runs : .run ∈ r.steps ↔ r.started.isSome = true
  /-- A pipeline is run for its payload, once it was built and the attempt marked. -/
  started : ∀ pipeline, (∃ runId, r.started = some (pipeline, runId)) ↔ args.Starts record o pipeline
  /-- The last step is that of an acknowledgement. -/
  acknowledging : .acknowledge ∈ r.steps ↔ r.acknowledged.isSome = true
  /-- The record is acknowledged exactly when its replay run was started and has delivered it. -/
  acknowledges : r.acknowledged.isSome = true ↔ r.started.isSome = true ∧ o.Delivered
  /-- What the sink is asked to acknowledge is the record with its marked attempt. -/
  acknowledged : ∀ updated, r.acknowledged = some updated →
    updated = (sink.replay storage record).2 ∧ r.storage = o.acknowledged.effect
      (sink.replay storage record).1 (sink.acknowledge (sink.replay storage record).1 updated)
  /-- A record counts as succeeded exactly when it was acknowledged without an error. -/
  succeeded : r.ending = .succeeded ↔ r.acknowledged.isSome = true ∧ o.acknowledged = .returned
  /-- Nothing happens to the other records. -/
  others : ∀ k k', sink.key record = some k → k' ≠ k →
    sink.stored r.storage k' = sink.stored storage k'
  /-- A record that is not acknowledged stays, and at most its attempt is marked. -/
  stays : ∀ k, sink.key record = some k → r.acknowledged = none →
    sink.stored r.storage k = sink.stored storage k ∨
      (.mark ∈ r.steps ∧ sink.stored r.storage k =
        (sink.stored storage k).map fun _ => record.attempt + 1)

/-- Marking the attempt, whether it is stored or not. -/
theorem stored_marked (sink : DLQSink V T σ κ) (record : DLQRecord V T) (outcome : SinkOutcome)
    (storage : σ) {k : κ} (hk : sink.key record = some k) (k' : κ) :
    sink.stored (outcome.effect storage (sink.replay storage record).1) k' = sink.stored storage k' ∨
      (k' = k ∧ sink.stored (outcome.effect storage (sink.replay storage record).1) k' =
        (sink.stored storage k').map fun _ => record.attempt + 1) := by
  cases outcome with
  | returned => exact sink.stored_replay storage record k k' hk
  | raised exc stored =>
    cases stored with
    | true => exact sink.stored_replay storage record k k' hk
    | false => exact .inl rfl

theorem stored_acknowledged (sink : DLQSink V T σ κ) (record : DLQRecord V T)
    (outcome : SinkOutcome) (storage : σ) {k k' : κ} (hk : sink.key record = some k)
    (hne : k' ≠ k) :
    sink.stored (outcome.effect storage (sink.acknowledge storage record)) k' =
      sink.stored storage k' := by
  cases outcome with
  | returned => exact sink.stored_acknowledge storage record k k' hk hne
  | raised exc stored =>
    cases stored with
    | true => exact sink.stored_acknowledge storage record k k' hk hne
    | false => rfl

theorem ofExc_ne_succeeded (exc : Exc) : RecordEnd.ofExc exc ≠ .succeeded := by
  unfold RecordEnd.ofExc
  split
  · nofun
  · nofun

section Ways

variable {sink : DLQSink V T σ κ} {args : ReplayArgs} {record : DLQRecord V T} {o : StepOutcomes}
  {storage : σ}

/-- The one pipeline that is run. -/
theorem started_iff {payload : V} (heligible : ¬ (args.mode = .sink ∧ record.stage ≠ "sink_write"))
    (hpayload : record.replayPayload args.mode = some payload) (hbuilt : o.built = .ok ())
    (hmarked : o.marked = .returned) (runId : String) (pipeline : ReplayPipeline V) :
    (∃ runId', some (buildReplayPipeline payload args.mode, runId) = some (pipeline, runId')) ↔
      args.Starts record o pipeline := by
  constructor
  · rintro ⟨runId', hstarted⟩
    obtain ⟨rfl, -⟩ := Prod.mk.inj (Option.some.inj hstarted)
    exact ⟨heligible, ⟨payload, hpayload, rfl⟩, hbuilt, hmarked⟩
  · rintro ⟨-, ⟨payload', hpayload', rfl⟩, -, -⟩
    obtain rfl : payload = payload' := Option.some.inj (hpayload.symm.trans hpayload')
    exact ⟨runId, rfl⟩

/-- Nothing is stored before the attempt is marked. -/
theorem replaysRight_of_untouched {ending : RecordEnd} {steps : List ReplayStep}
    (hending : ending ≠ .succeeded) (hsteps : steps <+: [.build])
    (hstarts : ∀ pipeline, ¬ args.Starts record o pipeline) :
    ReplaysRight sink args record o storage ⟨ending, steps, none, none, storage⟩ := by
  have hmem : ∀ step ∈ steps, step = .build := fun step hstep =>
    List.mem_singleton.mp (hsteps.subset hstep)
  have hnot : ∀ step : ReplayStep, step ≠ .build → step ∉ steps := fun _ hne hstep =>
    hne (hmem _ hstep)
  exact
    { steps := hsteps.trans (by decide)
      built := fun h => absurd h (hnot _ (by decide))
      runs := iff_of_false (hnot _ (by decide)) (by simp)
      started := fun pipeline => iff_of_false (by simp) (hstarts pipeline)
      acknowledging := iff_of_false (hnot _ (by decide)) (by simp)
      acknowledges := iff_of_false (by simp) (by simp)
      acknowledged := fun _ h => by cases h
      succeeded := iff_of_false hending (by simp)
      others := fun _ _ _ _ => rfl
      stays := fun _ _ _ => .inl rfl }

/-- The attempt is marked, and the record is not delivered. -/
theorem replaysRight_of_marked (hbuilt : o.built = .ok ()) {ending : RecordEnd}
    {steps : List ReplayStep} {started : Option (ReplayPipeline V × String)}
    (hending : ending ≠ .succeeded) (hsteps : steps <+: [.build, .mark, .run])
    (hmark : .mark ∈ steps) (hruns : .run ∈ steps ↔ started.isSome = true)
    (hstarted : ∀ pipeline, (∃ runId, started = some (pipeline, runId)) ↔
      args.Starts record o pipeline)
    (hfailed : started.isSome = true → ¬ o.Delivered) :
    ReplaysRight sink args record o storage ⟨ending, steps, started, none,
      o.marked.effect storage (sink.replay storage record).1⟩ := by
  have hnot : ReplayStep.acknowledge ∉ steps := fun h => by
    have := hsteps.subset h
    simp at this
  exact
    { steps := hsteps.trans (by decide)
      built := fun _ => hbuilt
      runs := hruns
      started := hstarted
      acknowledging := iff_of_false hnot (by simp)
      acknowledges := iff_of_false (by simp) fun h => hfailed h.1 h.2
      acknowledged := fun _ h => by cases h
      succeeded := iff_of_false hending (by simp)
      others := fun k k' hk hne =>
        (stored_marked sink record o.marked storage hk k').resolve_right fun h => hne h.1
      stays := fun k hk _ =>
        (stored_marked sink record o.marked storage hk k).imp_right fun h => ⟨hmark, h.2⟩ }

/-- The record is delivered and acknowledged. -/
theorem replaysRight_of_acknowledged (hbuilt : o.built = .ok ()) (hmarked : o.marked = .returned)
    (hdelivered : o.Delivered) {ending : RecordEnd} {started : ReplayPipeline V × String}
    (hstarted : ∀ pipeline, (∃ runId, some started = some (pipeline, runId)) ↔
      args.Starts record o pipeline)
    (hending : ending = .succeeded ↔ o.acknowledged = .returned) :
    ReplaysRight sink args record o storage ⟨ending, [.build, .mark, .run, .acknowledge], some started,
      some (sink.replay storage record).2,
      o.acknowledged.effect (o.marked.effect storage (sink.replay storage record).1)
        (sink.acknowledge (o.marked.effect storage (sink.replay storage record).1)
          (sink.replay storage record).2)⟩ := by
  have heffect : o.marked.effect storage (sink.replay storage record).1 =
      (sink.replay storage record).1 := by
    rw [hmarked]
    rfl
  exact
    { steps := List.prefix_rfl
      built := fun _ => hbuilt
      runs := by simp
      started := hstarted
      acknowledging := by simp
      acknowledges := iff_of_true rfl ⟨rfl, hdelivered⟩
      acknowledged := fun updated hupdated => by
        cases hupdated
        exact ⟨rfl, by rw [heffect]⟩
      succeeded := by simpa using hending
      others := fun k k' hk hne => by
        have hkey := (sink.key_replay storage record).trans hk
        rw [stored_acknowledged sink _ _ _ hkey hne]
        exact (stored_marked sink record o.marked storage hk k').resolve_right fun h => hne h.1
      stays := nofun }

end Ways

/-- The step lemma: every way through the body of the loop. -/
theorem replayRecord_right (sink : DLQSink V T σ κ) (args : ReplayArgs) (record : DLQRecord V T)
    (o : StepOutcomes) (storage : σ) :
    ReplaysRight sink args record o storage (replayRecord sink args record o storage) := by
  unfold replayRecord
  split
  · rename_i hskip
    exact replaysRight_of_untouched nofun List.nil_prefix fun _ h => h.eligible hskip
  rename_i heligible
  split
  · rename_i hnone
    refine replaysRight_of_untouched nofun List.nil_prefix fun _ h => ?_
    obtain ⟨payload, hpayload, -⟩ := h.payload
    rw [hnone] at hpayload
    cases hpayload
  rename_i payload hpayload
  dsimp only
  split
  · rename_i exc herror
    refine replaysRight_of_untouched (ofExc_ne_succeeded _) List.prefix_rfl fun _ h => ?_
    have hbuilt := h.built
    rw [herror] at hbuilt
    cases hbuilt
  rename_i hbuilt
  split
  · rename_i exc stored hraised
    refine replaysRight_of_marked hbuilt (ofExc_ne_succeeded _) (by decide) (by decide) (by simp)
      (fun _ => iff_of_false (by simp) fun h => ?_) (by simp)
    have hmarked := h.marked
    rw [hraised] at hmarked
    cases hmarked
  rename_i hmarked
  have hstarted := started_iff heligible hpayload hbuilt hmarked
    (args.replayRunId record (sink.replay storage record).2)
  split
  · rename_i hran
    refine replaysRight_of_marked hbuilt (ofExc_ne_succeeded _) (by decide) (by decide) (by simp)
      hstarted fun _ => ?_
    rintro ⟨summary, hsummary, -⟩
    rw [hran] at hsummary
    cases hsummary
  rename_i summary hran
  have hdelivered : o.Delivered → summary.recordsErrored = 0 ∧ summary.recordsWritten = 1 := by
    rintro ⟨summary', hsummary, hcounts⟩
    rw [hran] at hsummary
    cases hsummary
    exact hcounts
  split
  · rename_i herrored
    exact replaysRight_of_marked hbuilt nofun (by decide) (by decide) (by simp) hstarted fun _ h =>
      herrored (hdelivered h).1
  split
  · rename_i hwritten
    exact replaysRight_of_marked hbuilt nofun (by decide) (by decide) (by simp) hstarted fun _ h =>
      hwritten (hdelivered h).2
  rename_i herrored hwritten
  have hyes : o.Delivered := ⟨summary, hran, not_not.mp herrored, not_not.mp hwritten⟩
  split
  · rename_i hack
    refine replaysRight_of_acknowledged hbuilt hmarked hyes hstarted
      (iff_of_false (ofExc_ne_succeeded _) fun h => ?_)
    rw [hack] at h
    cases h
  · rename_i hack
    exact replaysRight_of_acknowledged hbuilt hmarked hyes hstarted (iff_of_true rfl hack)

/-! ### The loop -/

/-- What was done about one of the records, from the storage that was found. -/
structure ReplayEntry (V T σ : Type) where
  record : DLQRecord V T
  outcomes : StepOutcomes
  found : σ
  replay : RecordReplay V T σ

/-- The counters of the command with the storage, and what was done about the records so far. -/
structure ReplayState (V T σ : Type) where
  attempted : ℕ
  succeeded : ℕ
  failed : ℕ
  storage : σ
  entries : List (ReplayEntry V T σ)

/-- The start of the command. -/
def ReplayState.initial (storage : σ) : ReplayState V T σ := ⟨0, 0, 0, storage, []⟩

/-- The state after the replay of one record. -/
def ReplayState.after (s : ReplayState V T σ) (record : DLQRecord V T) (o : StepOutcomes)
    (r : RecordReplay V T σ) : ReplayState V T σ where
  attempted := s.attempted + 1
  succeeded := match r.ending with
    | .succeeded => s.succeeded + 1
    | _ => s.succeeded
  failed := match r.ending with
    | .failed => s.failed + 1
    | _ => s.failed
  storage := r.storage
  entries := s.entries ++ [⟨record, o, s.storage, r⟩]

/-- The replay loop: the records that the source yields with how the steps for each of them end, and
how the stream and the closing of the components end. -/
def replayLoop (sink : DLQSink V T σ κ) (args : ReplayArgs) (closed : Except Exc Unit) :
    List (DLQRecord V T × StepOutcomes) → ReplayState V T σ → Except Exc Unit × ReplayState V T σ
  | [], s => (closed, s)
  | (record, o) :: rest, s =>
    match o.fetched with
    | .error exc => (.error exc, s)
    | .ok () =>
      let r := replayRecord sink args record o s.storage
      match r.ending with
      | .interrupted exc => (.error exc, s.after record o r)
      | _ => replayLoop sink args closed rest (s.after record o r)

/-- `_run_dlq_command` from the opened components on, with its exit code. -/
def replayCommand (sink : DLQSink V T σ κ) (args : ReplayArgs) (closed : Except Exc Unit)
    (records : List (DLQRecord V T × StepOutcomes)) (storage : σ) :
    Except Exc ℕ × ReplayState V T σ :=
  match replayLoop sink args closed records (.initial storage) with
  | (.error exc, s) => (.error exc, s)
  | (.ok (), s) => (.ok (if s.failed ≠ 0 then 1 else 0), s)

namespace ReplayEntry

/-- The sink was asked to acknowledge the record. -/
def Acknowledged (e : ReplayEntry V T σ) : Prop := e.replay.acknowledged.isSome = true

/-- The attempt was marked. -/
def Marked (e : ReplayEntry V T σ) : Prop := .mark ∈ e.replay.steps

/-- The record was acknowledged, and the acknowledgement did not raise. -/
def Succeeded (e : ReplayEntry V T σ) : Prop :=
  e.Acknowledged ∧ e.outcomes.acknowledged = .returned

instance (e : ReplayEntry V T σ) : Decidable e.Acknowledged := inferInstanceAs (Decidable (_ = _))

/-- What was done about the record is right. -/
def Right (sink : DLQSink V T σ κ) (args : ReplayArgs) (e : ReplayEntry V T σ) : Prop :=
  ReplaysRight sink args e.record e.outcomes e.found e.replay

end ReplayEntry

/-- The record of a key is still stored, and at most its attempt has gone up, by one and by a marked
attempt. -/
def StillStored (sink : DLQSink V T σ κ) (k : κ) (attempt : Int) (s : ReplayState V T σ) : Prop :=
  sink.stored s.storage k = some attempt ∨
    (sink.stored s.storage k = some (attempt + 1) ∧
      ∃ e ∈ s.entries, sink.key e.record = some k ∧ e.Marked)

/-- The invariant of the loop, from the storage at its start. -/
structure LoopInvariant (sink : DLQSink V T σ κ) (args : ReplayArgs) (storage : σ)
    (s : ReplayState V T σ) : Prop where
  right : ∀ e ∈ s.entries, e.Right sink args
  attempted : s.attempted = s.entries.length
  kept : ∀ k attempt, sink.stored storage k = some attempt →
    (∀ e ∈ s.entries, sink.key e.record = some k → e.record.attempt = attempt ∧ ¬ e.Acknowledged) →
      StillStored sink k attempt s

theorem loopInvariant_initial (sink : DLQSink V T σ κ) (args : ReplayArgs) (storage : σ) :
    LoopInvariant sink args storage (.initial storage) where
  right _ he := absurd he List.not_mem_nil
  attempted := rfl
  kept _ _ hstored _ := .inl hstored

/-- The invariant is kept by the replay of one more record whose key is known. -/
theorem LoopInvariant.after {sink : DLQSink V T σ κ} {args : ReplayArgs} {storage : σ}
    {s : ReplayState V T σ} (h : LoopInvariant sink args storage s) {record : DLQRecord V T}
    {o : StepOutcomes} {r : RecordReplay V T σ} {k : κ} (hk : sink.key record = some k)
    (hr : ReplaysRight sink args record o s.storage r) :
    LoopInvariant sink args storage (s.after record o r) where
  right e he := by
    rcases List.mem_append.mp he with he | he
    · exact h.right e he
    · rw [List.mem_singleton.mp he]
      exact hr
  attempted := by
    unfold ReplayState.after
    rw [List.length_append, h.attempted]
    rfl
  kept k' attempt hstored hentries := by
    have hold := h.kept k' attempt hstored fun e he => hentries e (List.mem_append_left _ he)
    have hmem : ∀ e ∈ s.entries, e ∈ (s.after record o r).entries := fun e he =>
      List.mem_append_left _ he
    have hnew : (⟨record, o, s.storage, r⟩ : ReplayEntry V T σ) ∈ (s.after record o r).entries :=
      List.mem_append_right _ List.mem_cons_self
    have hsame : sink.stored r.storage k' = sink.stored s.storage k' →
        StillStored sink k' attempt (s.after record o r) := by
      intro hr'
      refine hold.imp (fun hstill => hr'.trans hstill) fun hmarked => ?_
      obtain ⟨hnext, e, he, hkey, hmark⟩ := hmarked
      exact ⟨hr'.trans hnext, e, hmem e he, hkey, hmark⟩
    by_cases hkk : k' = k
    · subst hkk
      obtain ⟨hattempt, hnot⟩ := hentries _ hnew hk
      rcases hr.stays k' hk (Option.not_isSome_iff_eq_none.mp hnot) with hr' | ⟨hmark, hr'⟩
      · exact hsame hr'
      · -- a marked attempt is stored as one more than that of the record
        refine .inr ⟨?_, _, hnew, hk, hmark⟩
        have hsome : ∃ n, sink.stored s.storage k' = some n :=
          hold.elim (fun hstill => ⟨_, hstill⟩) fun hmarked => ⟨_, hmarked.1⟩
        obtain ⟨n, hn⟩ := hsome
        change sink.stored r.storage k' = _
        rw [hr', hn, Option.map_some, hattempt]
    · exact hsame (hr.others k k' hk hkk)

/-- The counters agree with what was done about the records. -/
structure Counted (s : ReplayState V T σ) : Prop where
  total : s.attempted = s.succeeded + s.failed
  none_failed : s.failed = 0 ↔ ∀ e ∈ s.entries, e.Succeeded

/-- A record whose replay ended inside the loop is counted. -/
theorem Counted.after {s : ReplayState V T σ} (h : Counted s) {sink : DLQSink V T σ κ}
    {args : ReplayArgs} {record : DLQRecord V T} {o : StepOutcomes} {r : RecordReplay V T σ}
    (hr : ReplaysRight sink args record o s.storage r) (hend : ∀ exc, r.ending ≠ .interrupted exc) :
    Counted (s.after record o r) := by
  have hentry : (⟨record, o, s.storage, r⟩ : ReplayEntry V T σ).Succeeded ↔ r.ending = .succeeded :=
    hr.succeeded.symm
  have hall : (∀ e ∈ (s.after record o r).entries, e.Succeeded) ↔
      (∀ e ∈ s.entries, e.Succeeded) ∧ r.ending = .succeeded := by
    rw [← hentry]
    unfold ReplayState.after
    simp only [List.mem_append, List.mem_singleton]
    constructor
    · exact fun hall => ⟨fun e he => hall e (.inl he), hall _ (.inr rfl)⟩
    · rintro ⟨hold, hnew⟩ e (he | rfl)
      · exact hold e he
      · exact hnew
  cases hending : r.ending with
  | interrupted exc => exact absurd hending (hend exc)
  | succeeded =>
    refine ⟨?_, ?_⟩
    · unfold ReplayState.after
      simp only [hending, h.total]
      omega
    · rw [hall, ← h.none_failed]
      unfold ReplayState.after
      simp [hending]
  | failed =>
    refine ⟨?_, ?_⟩
    · unfold ReplayState.after
      simp only [hending, h.total]
      omega
    · rw [hall, ← h.none_failed]
      unfold ReplayState.after
      simp [hending]

/-- What a run of the loop from a state establishes. -/
structure LoopDone (sink : DLQSink V T σ κ) (args : ReplayArgs) (storage : σ)
    (records : List (DLQRecord V T × StepOutcomes)) (s : ReplayState V T σ)
    (result : Except Exc Unit × ReplayState V T σ) : Prop where
  invariant : LoopInvariant sink args storage result.2
  /-- The records are gone through in their order. -/
  through : ∃ done, done <+: records ∧
    result.2.entries.map (fun e => (e.record, e.outcomes)) =
      s.entries.map (fun e => (e.record, e.outcomes)) ++ done ∧
    (result.1 = .ok () → done = records)
  counted : result.1 = .ok () → Counted result.2

/-- The run lemma, by induction on the records still to come. -/
theorem replayLoop_done (sink : DLQSink V T σ κ) (args : ReplayArgs) (closed : Except Exc Unit)
    (storage : σ) (records : List (DLQRecord V T × StepOutcomes))
    (hkeys : ∀ p ∈ records, ∃ k, sink.key p.1 = some k) (s : ReplayState V T σ)
    (hs : LoopInvariant sink args storage s) (hcounted : Counted s) :
    LoopDone sink args storage records s (replayLoop sink args closed records s) := by
  induction records generalizing s with
  | nil =>
    refine ⟨hs, ⟨[], List.prefix_rfl, (List.append_nil _).symm, fun _ => rfl⟩, fun _ => hcounted⟩
  | cons p records ih =>
    obtain ⟨record, o⟩ := p
    obtain ⟨k, hk⟩ := hkeys (record, o) List.mem_cons_self
    have hright := replayRecord_right sink args record o s.storage
    have hafter := hs.after hk hright
    have hentries : (s.after record o (replayRecord sink args record o s.storage)).entries.map
        (fun e => (e.record, e.outcomes)) =
          s.entries.map (fun e => (e.record, e.outcomes)) ++ [(record, o)] := List.map_append
    have hcontinue : (∀ exc, (replayRecord sink args record o s.storage).ending ≠
        .interrupted exc) → LoopDone sink args storage ((record, o) :: records) s
          (replayLoop sink args closed records
            (s.after record o (replayRecord sink args record o s.storage))) := by
      intro hend
      have hrest := ih (fun p hp => hkeys p (List.mem_cons_of_mem _ hp)) _ hafter
        (hcounted.after hright hend)
      obtain ⟨done, hdone, hdone_eq, hall⟩ := hrest.through
      refine ⟨hrest.invariant, ⟨(record, o) :: done, ?_, ?_, fun hok => ?_⟩, hrest.counted⟩
      · exact List.cons_prefix_cons.mpr ⟨rfl, hdone⟩
      · rw [hdone_eq, hentries, List.append_assoc]
        rfl
      · rw [hall hok]
    unfold replayLoop
    split
    · exact ⟨hs, ⟨[], List.nil_prefix, (List.append_nil _).symm, nofun⟩, nofun⟩
    · dsimp only
      split
      · refine ⟨hafter, ⟨[(record, o)], ?_, hentries, nofun⟩, nofun⟩
        exact List.cons_prefix_cons.mpr ⟨rfl, List.nil_prefix⟩
      · rename_i hend
        exact hcontinue fun exc h => hend exc h

/-! ### The command -/

/-- The record is stored under a key, with the attempt it carries. -/
def DLQSink.Holds (sink : DLQSink V T σ κ) (storage : σ) (record : DLQRecord V T) : Prop :=
  ∃ k, sink.key record = some k ∧ sink.stored storage k = some record.attempt

theorem mem_of_mapM_rowToRecord {codec : RowCodec V T} {rows : List Row}
    {records : List (DLQRecord V T)} (h : rows.mapM (rowToRecord codec) = some records)
    {record : DLQRecord V T} (hrecord : record ∈ records) :
    ∃ row ∈ rows, rowToRecord codec row = some record := by
  induction rows generalizing records with
  | nil =>
    cases h
    cases hrecord
  | cons row rows ih =>
    rw [List.mapM_cons] at h
    cases hrow : rowToRecord codec row with
    | none =>
      rw [hrow] at h
      cases h
    | some first =>
      cases hrest : rows.mapM (rowToRecord codec) with
      | none =>
        rw [hrow, hrest] at h
        cases h
      | some rest =>
        rw [hrow, hrest] at h
        obtain rfl : first :: rest = records := Option.some.inj h
        rcases List.mem_cons.mp hrecord with rfl | hrecord
        · exact ⟨row, List.mem_cons_self, hrow⟩
        · obtain ⟨row', hrow', hread⟩ := ih hrest hrecord
          exact ⟨row', List.mem_cons_of_mem _ hrow', hread⟩

/-- The first row with an identifier is the only one. -/
theorem find?_row {rows : List Row} (hids : rows.Pairwise fun row row' => row.id ≠ row'.id)
    {row : Row} (hrow : row ∈ rows) : rows.find? (fun row' => row'.id = row.id) = some row := by
  induction rows with
  | nil => cases hrow
  | cons first rows ih =>
    obtain ⟨hfirst, hrows⟩ := List.pairwise_cons.mp hids
    rcases List.mem_cons.mp hrow with rfl | hrow
    · rw [List.find?_cons_of_pos (by simp)]
    · rw [List.find?_cons_of_neg (by simpa using hfirst row hrow)]
      exact ih hrows hrow

/-- What the SQLite source yields is stored in the table it reads. -/
theorem holds_of_stream {codec : RowCodec V T} {source : SQLiteDLQSource} {db : Database}
    (hids : db.rows.Pairwise fun row row' => row.id ≠ row'.id) {records : List (DLQRecord V T)}
    (h : source.stream codec db = some records) {record : DLQRecord V T}
    (hrecord : record ∈ records) : (sqliteSink codec).Holds db record := by
  unfold SQLiteDLQSource.stream at h
  obtain ⟨all, hall, rfl⟩ := Option.map_eq_some_iff.mp h
  obtain ⟨row, hfetched, hread⟩ := mem_of_mapM_rowToRecord hall (List.mem_filter.mp hrecord).1
  have hselected : row ∈ db.select fun row => source.accepts row.pipelineId row.stage := by
    unfold SQLiteDLQSource.fetchRows at hfetched
    dsimp only at hfetched
    split at hfetched
    · exact hfetched
    · split at hfetched
      · exact hfetched
      · exact List.mem_of_mem_take hfetched
  have hrow : row ∈ db.rows :=
    (List.mem_filter.mp ((List.perm_insertionSort _ _).mem_iff.mp hselected)).1
  unfold rowToRecord at hread
  obtain ⟨time, -, rfl⟩ := Option.map_eq_some_iff.mp hread
  refine ⟨row.id, rfl, ?_⟩
  change db.storedAttempt row.id = some row.attempt
  unfold Database.storedAttempt
  rw [find?_row hids hrow]
  rfl

/-- **The replay command.** Whatever records the source yields from the storage and however the steps
end: the records are gone through in order; for each a replay run is started exactly when a pipeline was
built for its payload and its attempt was marked, and the sink is asked to acknowledge it exactly when the
run returned with no errored record and exactly one written record. A record that is not acknowledged is
still stored, with at most one marked attempt more. A command that comes to its end has counted every
record once, as succeeded where it was acknowledged without an error and else as failed, and its exit code
is zero exactly when all have succeeded. -/
theorem replayCommand_right (sink : DLQSink V T σ κ) (args : ReplayArgs) (closed : Except Exc Unit)
    (records : List (DLQRecord V T × StepOutcomes)) (storage : σ)
    (hyielded : ∀ p ∈ records, sink.Holds storage p.1) {result : Except Exc ℕ}
    {s : ReplayState V T σ}
    (hrun : replayCommand sink args closed records storage = (result, s)) :
    s.entries.map (fun e => (e.record, e.outcomes)) <+: records ∧
      (∀ e ∈ s.entries, e.Right sink args) ∧
      (∀ e ∈ s.entries, ∀ k, sink.key e.record = some k →
        (∀ e' ∈ s.entries, sink.key e'.record = some k → ¬ e'.Acknowledged) →
          StillStored sink k e.record.attempt s) ∧
      ∀ code, result = .ok code → s.attempted = records.length ∧
        s.attempted = s.succeeded + s.failed ∧ (code = 0 ↔ s.failed = 0) ∧
        (s.failed = 0 ↔ ∀ e ∈ s.entries, e.Succeeded) := by
  have hkeys : ∀ p ∈ records, ∃ k, sink.key p.1 = some k := fun p hp => by
    obtain ⟨k, hk, -⟩ := hyielded p hp
    exact ⟨k, hk⟩
  have hdone := replayLoop_done sink args closed storage records hkeys (.initial storage)
    (loopInvariant_initial sink args storage)
    ⟨rfl, iff_of_true rfl fun _ he => absurd he List.not_mem_nil⟩
  obtain ⟨done, hprefix, hentries, hall⟩ := hdone.through
  have hloop : (replayLoop sink args closed records (.initial storage)).2 = s := by
    unfold replayCommand at hrun
    split at hrun
    · rename_i heq
      rw [heq]
      exact congrArg Prod.snd hrun
    · rename_i heq
      rw [heq]
      exact congrArg Prod.snd hrun
  rw [hloop] at hentries
  have hinvariant := hdone.invariant
  rw [hloop] at hinvariant
  have hmap : s.entries.map (fun e => (e.record, e.outcomes)) = done := hentries
  refine ⟨by rw [hmap]; exact hprefix, hinvariant.right, fun e he k hk hnot => ?_, fun code hcode => ?_⟩
  · -- all entries of the key carry the attempt that was stored at the start
    have hstored : ∀ e' ∈ s.entries, sink.key e'.record = some k →
        sink.stored storage k = some e'.record.attempt := by
      intro e' he' hk'
      have hmem : (e'.record, e'.outcomes) ∈ records := by
        refine hprefix.subset ?_
        rw [← hmap]
        exact List.mem_map.mpr ⟨e', he', rfl⟩
      obtain ⟨k', hkey, hattempt⟩ := hyielded _ hmem
      obtain rfl : k' = k := Option.some.inj (hkey.symm.trans hk')
      exact hattempt
    refine hinvariant.kept k e.record.attempt (hstored e he hk) fun e' he' hk' => ⟨?_, hnot e' he' hk'⟩
    exact Option.some.inj ((hstored e' he' hk').symm.trans (hstored e he hk))
  · unfold replayCommand at hrun
    split at hrun
    · cases hrun
      cases hcode
    · rename_i heq
      cases hrun
      obtain rfl : (if s.failed ≠ 0 then 1 else 0) = code := Except.ok.inj hcode
      have hok : (replayLoop sink args closed records (.initial storage)).1 = .ok () := by rw [heq]
      have hcounted := hdone.counted hok
      rw [hloop] at hcounted
      refine ⟨?_, hcounted.total, ?_, hcounted.none_failed⟩
      · rw [hinvariant.attempted, ← hall hok, ← hmap, List.length_map]
      · by_cases hfailed : s.failed = 0
        · simp [hfailed]
        · simp [hfailed]

/-! ### One record that is replayed -/

/-- All steps return, and the run has written the record. -/
def delivered : StepOutcomes where
  fetched := .ok ()
  built := .ok ()
  marked := .returned
  ran := .ok ⟨0, 1⟩
  acknowledged := .returned

/-- The table with one record under the identifier 1. -/
def flagTable : Database := ⟨[storedRow flagCodec (flagRecord, 1)], 1⟩

/-- The command on the one record of the table. -/
def deliveredRun : Except Exc ℕ × ReplayState Bool Unit Database :=
  replayCommand (sqliteSink flagCodec) ⟨.pipeline, none⟩ (.ok ()) [(flagRead 0, delivered)] flagTable

/-- The record is acknowledged, and the command ends with exit code zero. -/
theorem replayCommand_right_delivered :
    deliveredRun.1 = .ok 0 ∧ deliveredRun.2.entries.map (fun e => e.replay.steps) =
        [[.build, .mark, .run, .acknowledge]] ∧
      (∀ e ∈ deliveredRun.2.entries, e.Right (sqliteSink flagCodec) ⟨.pipeline, none⟩) ∧
      ∀ e ∈ deliveredRun.2.entries, e.Succeeded := by
  have hread : everything.stream flagCodec flagTable = some [flagRead 0] :=
    everything_reads 0 (by decide)
  have hyielded : ∀ p ∈ [(flagRead 0, delivered)], (sqliteSink flagCodec).Holds flagTable p.1 := by
    intro p hp
    obtain rfl := List.mem_singleton.mp hp
    exact holds_of_stream (List.pairwise_singleton _ _) hread List.mem_cons_self
  have hrun : replayCommand (sqliteSink flagCodec) ⟨.pipeline, none⟩ (.ok ()) [(flagRead 0, delivered)]
      flagTable = (deliveredRun.1, deliveredRun.2) := rfl
  obtain ⟨-, hright, -, hcode⟩ := replayCommand_right _ _ _ _ _ hyielded hrun
  obtain ⟨-, -, -, hsucceeded⟩ := hcode 0 rfl
  exact ⟨rfl, rfl, hright, hsucceeded.mp rfl⟩

end AgoraEtl.Dlq
