import AgoraEtl.Effect.Runs
import AgoraEtl.Sources.File.Parquet

/-!
# Where the runs of one file source start

`restoreCheckpoint` loads the checkpoint of a run and hands it to `prepareResume` of the source, which
is the only code that writes the cursor of the source object.  `Decision` is what a run is meant to do
with its checkpoint, without regard to the runs before it; `startOf` is where a run with the cursor
does start.
-/

namespace AgoraEtl.File

open Effect

variable {ε T Row Item Raw V : Type}

/-- Which of the three sources. -/
inductive FileKind where
  | csv
  | jsonLines
  | parquet
  deriving DecidableEq

/-- `CheckpointValue` as it was stored: a dictionary, or some other value. -/
inductive StoredValue (V : Type) where
  | dict (entries : List (String × V))
  | other

/-- How `restore_checkpoint` fails: by the mismatch of identities, or by another exception. -/
inductive ResumeError where
  | identityMismatch (message : String)
  | failed (exc : Exc)
  deriving DecidableEq

/-- A file source; `toInt` is what `int` makes of the value under the cursor's key. -/
structure FileSource (V : Type) where
  kind : FileKind
  mismatchPolicy : SourceIdentityMismatchPolicy := .failClosed
  toInt : V → Except Exc ℤ

/-- What one run finds: whether it has a checkpoint store, what loading gives, the identity of the file
or the exception of asking for it, and the policy for failures of the store. -/
structure RunStart (V : Type) where
  hasStore : Bool := true
  loaded : Except Exc (Option (Checkpoint (StoredValue V)))
  identity : Except Exc String
  failurePolicy : CheckpointFailurePolicy

namespace FileSource

variable (s : FileSource V)

def settings : ResumeSettings where
  sourceName := match s.kind with
    | .csv => "csv"
    | .jsonLines => "jsonl"
    | .parquet => "parquet"
  checkpointKey := match s.kind with
    | .jsonLines => "line_number"
    | _ => "row_number"
  mismatchPolicy := s.mismatchPolicy

/-- `_accept_checkpoint_identity`, which asks for the identity of the file if there is a checkpoint. -/
def acceptCheckpointIdentity (identity : Except Exc String) :
    Option (Checkpoint (StoredValue V)) → Except ResumeError Bool
  | none => .ok false
  | some checkpoint =>
    match identity with
    | .error exc => .error (.failed exc)
    | .ok current =>
      match s.settings.acceptCheckpointIdentity current
          (some ⟨checkpoint.pipelineId, checkpoint.runId, checkpoint.source, none,
            checkpoint.sourceIdentity⟩) with
      | .error message => .error (.identityMismatch message)
      | .ok accepted => .ok accepted

/-- `int(value.get(key, 0))`, where anything but a dictionary counts as an empty one. -/
def cursorOf : StoredValue V → Except Exc ℤ
  | .other => .ok 0
  | .dict entries =>
    match entries.lookup s.settings.checkpointKey with
    | none => .ok 0
    | some value => s.toInt value

/-- `prepare_resume`, with the cursor of the object before and after. -/
def prepareResume (identity : Except Exc String) (checkpoint : Option (Checkpoint (StoredValue V)))
    (cursor : ℤ) : Except ResumeError Unit × ℤ :=
  match s.acceptCheckpointIdentity identity checkpoint, checkpoint with
  | .error exc, _ => (.error exc, cursor)
  | .ok true, some checkpoint =>
    match s.cursorOf checkpoint.value with
    | .error exc => (.error (.failed exc), cursor)
    | .ok number => (.ok (), number)
  | .ok _, _ => (.ok (), 0)

/-- The `except` clauses of `restore_checkpoint`. -/
def settleRestore (policy : CheckpointFailurePolicy) :
    Except ResumeError Unit → Except ResumeError Unit
  | .error (.failed exc) =>
    if exc.isException = true ∧ policy = .logAndContinue then .ok () else .error (.failed exc)
  | result => result

/-- `restore_checkpoint`: whether the run goes on, and the cursor of the object with which it does. -/
def restoreCheckpoint (run : RunStart V) (cursor : ℤ) : Except ResumeError Unit × ℤ :=
  if run.hasStore = false then (.ok (), cursor)
  else match run.loaded with
    | .error exc => (settleRestore run.failurePolicy (.error (.failed exc)), cursor)
    | .ok checkpoint =>
      let (result, cursor') := s.prepareResume run.identity checkpoint cursor
      (settleRestore run.failurePolicy result, cursor')

/-- Where a run with the cursor starts: how many rows of the file it skips, and the number after which
it counts the others.  A Parquet source counts from the cursor but skips no row. -/
def startOf (cursor : ℤ) : ℕ × ℤ :=
  match s.kind with
  | .parquet => (0, cursor)
  | _ => (cursor.toNat, cursor.toNat)

/-- `startOf` is where the loops over the rows start: those of the text sources take the rows after the
cursor, and those of a Parquet source all rows, numbered from the cursor. -/
theorem rows_startOf (rows : RowSettings ε T Row Item Raw) (cursor : ℕ) (progress : Progress) :
    (s.kind ≠ .parquet → ∀ lines, rows.syncLoop cursor lines 0 progress =
      rows.handleBatch (rows.numbered (lines.drop (s.startOf cursor).1) (s.startOf cursor).2.toNat)
        progress) ∧
    (s.kind = .parquet → ∀ batches, rows.readBatchesLoop cursor batches cursor progress =
      rows.handleBatch (rows.numbered (batches.flatten.drop (s.startOf cursor).1)
        (s.startOf cursor).2.toNat) progress) := by
  have hdrop : ∀ (lines : List Row) (number : ℕ), number ≤ cursor →
      rows.unskipped cursor lines number = rows.numbered (lines.drop (cursor - number)) cursor := by
    intro lines
    induction lines with
    | nil =>
      intro number hnumber
      rw [List.drop_nil]
      rfl
    | cons line lines ih =>
      intro number hnumber
      rcases Nat.eq_or_lt_of_le hnumber with rfl | hless
      · rw [rows.unskipped_of_le le_rfl, Nat.sub_self, List.drop_zero]
      · obtain ⟨skip, hskip⟩ : ∃ skip, cursor - number = skip + 1 := ⟨cursor - number - 1, by omega⟩
        rw [rows.unskipped_cons_of_le line lines hless, ih (number + 1) hless, hskip,
          List.drop_succ_cons]
        congr 2
        omega
  constructor
  · intro hkind lines
    have hstart : s.startOf cursor = (cursor, (cursor : ℤ)) := by
      unfold startOf
      cases hkind' : s.kind with
      | parquet => exact absurd hkind' hkind
      | csv => simp
      | jsonLines => simp
    rw [hstart, rows.syncLoop_eq, hdrop lines 0 (Nat.zero_le _)]
    rfl
  · intro hkind batches
    have hstart : s.startOf cursor = (0, (cursor : ℤ)) := by
      unfold startOf
      rw [hkind]
    rw [hstart, rows.readBatchesLoop_eq le_rfl]
    rfl

/-! ### What a run is meant to do -/

/-- What a run is to do with what it finds. -/
inductive Decision where
  | resume (cursor : ℤ)
  | startOver
  | mismatch
  | fail (exc : Exc)
  deriving DecidableEq

/-- A failure of the store or of the source that is logged lets the run start over. -/
def Decision.ofFailure (policy : CheckpointFailurePolicy) (exc : Exc) : Decision :=
  if exc.isException = true ∧ policy = .logAndContinue then .startOver else .fail exc

/-- A run resumes at a saved cursor if the load succeeded, the checkpoint exists, and its identity is
that of the file or the policy is `ALLOW`. -/
def decision (run : RunStart V) : Decision :=
  if run.hasStore = false then .startOver
  else match run.loaded, run.identity with
    | .error exc, _ => .ofFailure run.failurePolicy exc
    | .ok none, _ => .startOver
    | .ok (some _), .error exc => .ofFailure run.failurePolicy exc
    | .ok (some checkpoint), .ok current =>
      if checkpoint.sourceIdentity = some current ∨ s.mismatchPolicy = .allow then
        match s.cursorOf checkpoint.value with
        | .ok number => .resume number
        | .error exc => .ofFailure run.failurePolicy exc
      else if s.mismatchPolicy = .reset then .startOver
      else .mismatch

/-- The first row that a run takes is the one after the cursor, under its number in the file. -/
def StartsAt (cursor : ℤ) (number : ℕ) : Prop := s.startOf cursor = (number, (number : ℤ))

/-- A run does what it is meant to do, given the cursor of the object before it. -/
def DoesAsMeant (cursor : ℤ) (run : RunStart V) : Prop :=
  match s.decision run, s.restoreCheckpoint run cursor with
  | .resume number, (result, cursor') => result = .ok () ∧ s.StartsAt cursor' number.toNat
  | .startOver, (result, cursor') => result = .ok () ∧ s.StartsAt cursor' 0
  | .mismatch, (result, _) => ∃ message, result = .error (.identityMismatch message)
  | .fail exc, (result, _) => result = .error (.failed exc)

/-- Nothing writes the cursor: there is no store, the load fails, the file has no identity, or the
accepted cursor is no number. -/
def KeepsCursor (run : RunStart V) : Prop :=
  run.hasStore = false ∨ (∃ exc, run.loaded = .error exc) ∨
    ∃ checkpoint, run.loaded = .ok (some checkpoint) ∧
      ((∃ exc, run.identity = .error exc) ∨
        ∃ current exc, run.identity = .ok current ∧
          (checkpoint.sourceIdentity = some current ∨ s.mismatchPolicy = .allow) ∧
            s.cursorOf checkpoint.value = .error exc)

/-- What a run needs to do what it is meant to do: a cursor of an earlier run is not in the way where
nothing writes the cursor, and a Parquet source has no row to skip. -/
def Spared (cursor : ℤ) (run : RunStart V) : Prop :=
  (s.decision run = .startOver → s.KeepsCursor run → s.StartsAt cursor 0) ∧
    ∀ number, s.decision run = .resume number → s.kind = .parquet → number = 0

theorem startsAt_zero_iff (cursor : ℤ) :
    s.StartsAt cursor 0 ↔ if s.kind = .parquet then cursor = 0 else cursor ≤ 0 := by
  have hmax : max cursor 0 = 0 ↔ cursor ≤ 0 := by omega
  unfold StartsAt startOf
  cases s.kind <;> simp [hmax]

theorem startsAt_toNat_iff (cursor : ℤ) :
    s.StartsAt cursor cursor.toNat ↔ (s.kind = .parquet → cursor = 0) := by
  unfold StartsAt startOf
  cases s.kind with
  | csv => simp
  | jsonLines => simp
  | parquet =>
    simp only [Prod.mk.injEq, forall_const]
    omega

section Prepare

variable {s} {current : String} {checkpoint : Checkpoint (StoredValue V)}

theorem prepareResume_accepted
    (h : checkpoint.sourceIdentity = some current ∨ s.mismatchPolicy = .allow) (cursor : ℤ) :
    s.prepareResume (.ok current) (some checkpoint) cursor =
      match s.cursorOf checkpoint.value with
      | .error exc => (.error (.failed exc), cursor)
      | .ok number => (.ok (), number) := by
  have haccept : s.acceptCheckpointIdentity (.ok current) (some checkpoint) = .ok true := by
    unfold acceptCheckpointIdentity ResumeSettings.acceptCheckpointIdentity
    dsimp only
    by_cases hsame : checkpoint.sourceIdentity = some current
    · rw [if_pos hsame]
    · have hallow : s.settings.mismatchPolicy = .allow := h.resolve_left hsame
      rw [if_neg hsame, hallow]
  unfold prepareResume
  rw [haccept]

theorem prepareResume_reset (hdiffers : checkpoint.sourceIdentity ≠ some current)
    (hreset : s.mismatchPolicy = .reset) (cursor : ℤ) :
    s.prepareResume (.ok current) (some checkpoint) cursor = (.ok (), 0) := by
  have hpolicy : s.settings.mismatchPolicy = .reset := hreset
  unfold prepareResume acceptCheckpointIdentity ResumeSettings.acceptCheckpointIdentity
  dsimp only
  rw [if_neg hdiffers, hpolicy]

theorem prepareResume_failClosed (hdiffers : checkpoint.sourceIdentity ≠ some current)
    (hclosed : s.mismatchPolicy = .failClosed) (cursor : ℤ) :
    ∃ message, s.prepareResume (.ok current) (some checkpoint) cursor =
      (.error (.identityMismatch message), cursor) := by
  have hpolicy : s.settings.mismatchPolicy = .failClosed := hclosed
  unfold prepareResume acceptCheckpointIdentity ResumeSettings.acceptCheckpointIdentity
  dsimp only
  rw [if_neg hdiffers, hpolicy]
  exact ⟨_, rfl⟩

end Prepare

/-- A run that starts over with the cursor as it was. -/
theorem doesAsMeant_of_kept {cursor : ℤ} {run : RunStart V} (hdecision : s.decision run = .startOver)
    (hrestore : s.restoreCheckpoint run cursor = (.ok (), cursor)) (hkeeps : s.KeepsCursor run) :
    s.DoesAsMeant cursor run ↔ s.Spared cursor run := by
  unfold DoesAsMeant Spared
  rw [hdecision, hrestore]
  simp [hkeeps]

/-- A run that starts over at zero. -/
theorem doesAsMeant_of_reset {cursor : ℤ} {run : RunStart V} (hdecision : s.decision run = .startOver)
    (hrestore : s.restoreCheckpoint run cursor = (.ok (), 0)) (hkeeps : ¬ s.KeepsCursor run) :
    s.DoesAsMeant cursor run ↔ s.Spared cursor run := by
  have hstarts : s.StartsAt 0 0 := by rw [startsAt_zero_iff]; simp
  unfold DoesAsMeant Spared
  rw [hdecision, hrestore]
  simp [hkeeps, hstarts]

/-- A failure that is logged leaves the cursor as it was. -/
theorem doesAsMeant_of_failure {cursor : ℤ} {run : RunStart V} (exc : Exc)
    (hdecision : s.decision run = .ofFailure run.failurePolicy exc)
    (hrestore : s.restoreCheckpoint run cursor =
      (settleRestore run.failurePolicy (.error (.failed exc)), cursor))
    (hkeeps : s.KeepsCursor run) : s.DoesAsMeant cursor run ↔ s.Spared cursor run := by
  unfold Decision.ofFailure at hdecision
  unfold settleRestore at hrestore
  dsimp only at hrestore
  by_cases hlogged : exc.isException = true ∧ run.failurePolicy = .logAndContinue
  · rw [if_pos hlogged] at hdecision hrestore
    exact s.doesAsMeant_of_kept hdecision hrestore hkeeps
  · rw [if_neg hlogged] at hdecision hrestore
    unfold DoesAsMeant Spared
    rw [hdecision, hrestore]
    simp

section Loaded

variable {s} {cursor : ℤ} {run : RunStart V} {checkpoint : Checkpoint (StoredValue V)}
  {current : String}

theorem restoreCheckpoint_loaded {loaded : Option (Checkpoint (StoredValue V))}
    (hstore : run.hasStore ≠ false) (hloaded : run.loaded = .ok loaded) :
    s.restoreCheckpoint run cursor =
      (settleRestore run.failurePolicy (s.prepareResume run.identity loaded cursor).1,
        (s.prepareResume run.identity loaded cursor).2) := by
  unfold restoreCheckpoint
  rw [if_neg hstore, hloaded]

/-- A checkpoint whose identity is accepted: its cursor is taken, if it is a number. -/
theorem doesAsMeant_of_accepted (hstore : run.hasStore ≠ false)
    (hloaded : run.loaded = .ok (some checkpoint)) (hidentity : run.identity = .ok current)
    (haccept : checkpoint.sourceIdentity = some current ∨ s.mismatchPolicy = .allow) :
    s.DoesAsMeant cursor run ↔ s.Spared cursor run := by
  have hrestore : s.restoreCheckpoint run cursor = _ := restoreCheckpoint_loaded hstore hloaded
  rw [hidentity, prepareResume_accepted haccept] at hrestore
  have hdecision : s.decision run = match s.cursorOf checkpoint.value with
      | .ok number => .resume number
      | .error exc => .ofFailure run.failurePolicy exc := by
    unfold decision
    rw [if_neg hstore, hloaded, hidentity]
    exact if_pos haccept
  cases hcursor : s.cursorOf checkpoint.value with
  | error exc =>
    rw [hcursor] at hdecision hrestore
    exact s.doesAsMeant_of_failure exc hdecision hrestore
      (.inr (.inr ⟨checkpoint, hloaded, .inr ⟨current, exc, hidentity, haccept, hcursor⟩⟩))
  | ok number =>
    rw [hcursor] at hdecision hrestore
    have hresumed : s.restoreCheckpoint run cursor = (.ok (), number) := hrestore
    unfold DoesAsMeant Spared
    rw [hdecision, hresumed]
    simp [s.startsAt_toNat_iff number]

/-- A checkpoint whose identity is not accepted: the policy decides. -/
theorem doesAsMeant_of_rejected (hstore : run.hasStore ≠ false)
    (hloaded : run.loaded = .ok (some checkpoint)) (hidentity : run.identity = .ok current)
    (hdiffers : checkpoint.sourceIdentity ≠ some current) (hallow : s.mismatchPolicy ≠ .allow) :
    s.DoesAsMeant cursor run ↔ s.Spared cursor run := by
  have hrestore : s.restoreCheckpoint run cursor = _ := restoreCheckpoint_loaded hstore hloaded
  rw [hidentity] at hrestore
  have hdecision : s.decision run =
      if s.mismatchPolicy = .reset then .startOver else .mismatch := by
    unfold decision
    rw [if_neg hstore, hloaded, hidentity]
    exact if_neg (not_or.mpr ⟨hdiffers, hallow⟩)
  cases hpolicy : s.mismatchPolicy with
  | allow => exact absurd hpolicy hallow
  | reset =>
    rw [if_pos hpolicy] at hdecision
    rw [prepareResume_reset hdiffers hpolicy] at hrestore
    refine s.doesAsMeant_of_reset hdecision hrestore ?_
    simp [KeepsCursor, hstore, hloaded, hidentity, hdiffers, hallow]
  | failClosed =>
    rw [if_neg (by rw [hpolicy]; exact nofun)] at hdecision
    obtain ⟨message, hmessage⟩ := prepareResume_failClosed hdiffers hpolicy cursor
    have hraised : s.restoreCheckpoint run cursor =
        (.error (.identityMismatch message), cursor) := by
      rw [hrestore, hmessage]
      rfl
    unfold DoesAsMeant Spared
    rw [hdecision, hraised]
    simp

end Loaded

/-- A run does what it is meant to do exactly where it is spared. -/
theorem doesAsMeant_iff (cursor : ℤ) (run : RunStart V) :
    s.DoesAsMeant cursor run ↔ s.Spared cursor run := by
  by_cases hstore : run.hasStore = false
  · refine s.doesAsMeant_of_kept ?_ ?_ (.inl hstore)
    · unfold decision
      rw [if_pos hstore]
    · unfold restoreCheckpoint
      rw [if_pos hstore]
  cases hloaded : run.loaded with
  | error exc =>
    apply s.doesAsMeant_of_failure exc
    · unfold decision
      rw [if_neg hstore, hloaded]
    · unfold restoreCheckpoint
      rw [if_neg hstore, hloaded]
    · exact .inr (.inl ⟨exc, hloaded⟩)
  | ok loaded =>
    cases loaded with
    | none =>
      apply s.doesAsMeant_of_reset
      · unfold decision
        rw [if_neg hstore, hloaded]
      · rw [restoreCheckpoint_loaded hstore hloaded]
        rfl
      · simp [KeepsCursor, hstore, hloaded]
    | some checkpoint =>
      cases hidentity : run.identity with
      | error exc =>
        apply s.doesAsMeant_of_failure exc
        · unfold decision
          rw [if_neg hstore, hloaded, hidentity]
        · rw [restoreCheckpoint_loaded hstore hloaded, hidentity]
          rfl
        · exact .inr (.inr ⟨checkpoint, hloaded, .inl ⟨exc, hidentity⟩⟩)
      | ok current =>
        by_cases haccept : checkpoint.sourceIdentity = some current ∨ s.mismatchPolicy = .allow
        · exact doesAsMeant_of_accepted hstore hloaded hidentity haccept
        · obtain ⟨hdiffers, hallow⟩ := not_or.mp haccept
          exact doesAsMeant_of_rejected hstore hloaded hidentity hdiffers hallow

/-- The next run of the object, with the cursor before and after it. -/
def RunStep (cursor : ℤ) (run : RunStart V) (cursor' : ℤ) : Prop :=
  (s.restoreCheckpoint run cursor).2 = cursor'

/-- Over the runs of one object, from its construction: all of them do what they are meant to do exactly
where all of them are spared. -/
theorem runs_doAsMeant_iff (runs : List (RunStart V)) (cursor : ℤ) :
    Runs (fun c run c' => s.RunStep c run c' ∧ s.DoesAsMeant c run) 0 runs cursor ↔
      Runs (fun c run c' => s.RunStep c run c' ∧ s.Spared c run) 0 runs cursor :=
  Runs.iff_of_invariant (I := fun _ => True) trivial
    (fun c run _ _ _ => s.doesAsMeant_iff c run) fun _ _ _ _ _ _ => trivial

/-- A CSV source that has resumed after row 5 and then fails to load a checkpoint, which is logged,
skips five rows again. -/
theorem not_doesAsMeant_secondRun :
    let s : FileSource ℤ := ⟨.csv, .failClosed, .ok⟩
    let saved : Checkpoint (StoredValue ℤ) :=
      ⟨"pipeline", "run", "csv", .dict [("row_number", 5)], some "file"⟩
    let first : RunStart ℤ := ⟨true, .ok (some saved), .ok "file", .logAndContinue⟩
    let second : RunStart ℤ :=
      ⟨true, .error (.runtimeError "database is locked"), .ok "file", .logAndContinue⟩
    s.RunStep 0 first 5 ∧ s.DoesAsMeant 0 first ∧ s.restoreCheckpoint second 5 = (.ok (), 5) ∧
      ¬ s.DoesAsMeant 5 second := by
  refine ⟨rfl, ⟨rfl, rfl⟩, rfl, ?_⟩
  rintro ⟨-, hstarts⟩
  exact absurd (Prod.mk.inj hstarts).1 (by decide)

end FileSource

end AgoraEtl.File
