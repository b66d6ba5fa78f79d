import AgoraEtl.Delivery.Types
import AgoraEtl.Sources.Resumption

/-!
# The rows of a file source

The file sources number the rows of a file, skip those up to the number they resume from, and turn
the others into records. They have three ways to do so, each with a loop of its own: records one by
one, batches of records, and records of rows that were read ahead. The loops are defined over the
rows that are left, the number of the last row that was read, and the counters of the source.

The end of a run is part of it: a row may stop the run with a `SourceRecordError`.
-/

namespace AgoraEtl.File

open Resumption

variable {ε T Row Item Raw : Type}

/-! ### Checkpoints -/

/-- `SourceRecordFailurePolicy`. -/
inductive SourceRecordFailurePolicy where
  | failClosed
  | logAndContinue
  deriving DecidableEq

/-- `SourceIdentityMismatchPolicy`. -/
inductive SourceIdentityMismatchPolicy where
  | failClosed
  | reset
  | allow
  deriving DecidableEq

/-- `CheckpointValue`: the entries of a dictionary, or `none` for `None`. -/
abbrev CheckpointValue : Type := Option (List (String × ℕ))

/-- What a source has at hand to accept a checkpoint. -/
structure ResumeSettings where
  sourceName : String
  checkpointKey : String
  mismatchPolicy : SourceIdentityMismatchPolicy

/-- The text of `SourceIdentityMismatchError`. -/
def ResumeSettings.mismatchMessage (settings : ResumeSettings) (reason : String) : String :=
  "Cannot safely resume source '" ++ settings.sourceName ++ "': " ++ reason ++
    ". Use source_identity_mismatch_policy='reset' to start from the beginning, or 'allow' only " ++
    "when preserving the saved cursor is known to be safe."

/-- `_accept_checkpoint_identity`. -/
def ResumeSettings.acceptCheckpointIdentity (settings : ResumeSettings) (current : String) :
    Option (Checkpoint CheckpointValue) → Except String Bool
  | none => .ok false
  | some checkpoint =>
    if checkpoint.sourceIdentity = some current then .ok true
    else
      let reason := match checkpoint.sourceIdentity with
        | none => "checkpoint has no source identity (legacy checkpoint)"
        | some _ => "saved source identity differs from the current file"
      match settings.mismatchPolicy with
      | .failClosed => .error (settings.mismatchMessage reason)
      | .reset => .ok false
      | .allow => .ok true

/-- `int(value.get(key, 0))`. -/
def ResumeSettings.numberOf (settings : ResumeSettings) (value : CheckpointValue) : ℕ :=
  ((value.getD []).lookup settings.checkpointKey).getD 0

/-- The number from which `prepare_resume` lets the source resume. -/
def ResumeSettings.resumeNumber (settings : ResumeSettings) (current : String)
    (checkpoint : Option (Checkpoint CheckpointValue)) : Except String ℕ := do
  if ← settings.acceptCheckpointIdentity current checkpoint then
    return settings.numberOf (checkpoint.bind Checkpoint.value)
  else
    return 0

/-- `current_checkpoint` of a source whose last row has the number. -/
def ResumeSettings.checkpointOf (settings : ResumeSettings) (number : ℕ) : CheckpointValue :=
  if number ≤ 0 then none else some [(settings.checkpointKey, number)]

/-- A checkpoint tells the number it was made for. -/
@[simp]
theorem ResumeSettings.numberOf_checkpointOf (settings : ResumeSettings) (number : ℕ) :
    settings.numberOf (settings.checkpointOf number) = number := by
  unfold numberOf checkpointOf
  split
  · have hzero : number = 0 := by omega
    simp [hzero]
  · simp

/-- The checkpoint of the same file is accepted, whatever the policy. -/
theorem ResumeSettings.resumeNumber_some (settings : ResumeSettings) {current : String}
    {checkpoint : Checkpoint CheckpointValue} (hsame : checkpoint.sourceIdentity = some current) :
    settings.resumeNumber current (some checkpoint) =
      .ok (settings.numberOf checkpoint.value) := by
  simp [resumeNumber, acceptCheckpointIdentity, hsame, bind, Except.bind, pure, Except.pure]

/-! ### Rows and runs -/

/-- What becomes of one row: the row mapper may drop it, and may raise as the parser may. -/
inductive RowResult (ε T Raw : Type) where
  | blank
  | record (record : T)
  | dropped
  | failed (exc : ε) (raw : Raw)

/-- The counters of a source. -/
structure Progress where
  lastNumber : ℕ := 0
  recordErrorCount : ℕ := 0
  recordDropCount : ℕ := 0
  deriving DecidableEq

namespace Progress

def reached (progress : Progress) (number : ℕ) : Progress := { progress with lastNumber := number }

def errored (progress : Progress) : Progress :=
  { progress with recordErrorCount := progress.recordErrorCount + 1 }

def dropped (progress : Progress) : Progress :=
  { progress with recordDropCount := progress.recordDropCount + 1 }

/-- The counters at the start of a run; the last row number is that of the run before. -/
def restarted (progress : Progress) : Progress :=
  { progress with recordErrorCount := 0, recordDropCount := 0 }

/-- A number that is reached is the last one. -/
@[simp]
theorem lastNumber_reached (progress : Progress) (number : ℕ) :
    (progress.reached number).lastNumber = number := rfl

/-- An error leaves the last number. -/
@[simp]
theorem lastNumber_errored (progress : Progress) :
    progress.errored.lastNumber = progress.lastNumber := rfl

/-- So does a dropped row. -/
@[simp]
theorem lastNumber_dropped (progress : Progress) :
    progress.dropped.lastNumber = progress.lastNumber := rfl

end Progress

/-- `SourceRecordError`. -/
structure SourceRecordError (ε Raw : Type) where
  original : ε
  record : Raw
  checkpoint : CheckpointValue
  source : String
  stage : String := "source_record"
  deriving DecidableEq

/-- How a run ends. -/
inductive RunEnd (ε Raw : Type) where
  | finished
  | raised (error : SourceRecordError ε Raw)
  deriving DecidableEq

/-- A run of a generator: what it yields, with the checkpoint that the source reports at each
yield, the counters when it is over, and how it ends. -/
structure SourceRun (α ε Raw : Type) where
  yields : List (α × CheckpointValue)
  progress : Progress
  ended : RunEnd ε Raw

namespace SourceRun

variable {α : Type}

def finish (progress : Progress) : SourceRun α ε Raw := ⟨[], progress, .finished⟩

def raise (error : SourceRecordError ε Raw) (progress : Progress) : SourceRun α ε Raw :=
  ⟨[], progress, .raised error⟩

/-- The run that first yields the item. -/
def yielding (item : α) (checkpoint : CheckpointValue) (run : SourceRun α ε Raw) :
    SourceRun α ε Raw :=
  { run with yields := (item, checkpoint) :: run.yields }

/-- The run that goes on when the first one has not raised. -/
def andThen (run : SourceRun α ε Raw) (next : Progress → SourceRun α ε Raw) :
    SourceRun α ε Raw :=
  match run.ended with
  | .finished => { next run.progress with yields := run.yields ++ (next run.progress).yields }
  | .raised _ => run

/-- The records of a run, without the checkpoints. -/
def records (run : SourceRun α ε Raw) : List α := run.yields.map Prod.fst

/-- What is yielded first comes before all that follows. -/
@[simp]
theorem andThen_yielding (item : α) (checkpoint : CheckpointValue) (run : SourceRun α ε Raw)
    (next : Progress → SourceRun α ε Raw) :
    (run.yielding item checkpoint).andThen next = (run.andThen next).yielding item checkpoint := by
  obtain ⟨yields, progress, ended⟩ := run
  cases ended <;> rfl

end SourceRun

/-! ### The loops -/

/-- What the loops of a source use of it. Rows are read first, and an item that was read is handled
afterwards. -/
structure RowSettings (ε T Row Item Raw : Type) extends ResumeSettings where
  read : Row → Item
  handle : Item → RowResult ε T Raw
  onRecordError : SourceRecordFailurePolicy

/-- What a loop goes on with after one row. -/
inductive RowStep (ε T Raw : Type) where
  | pass (progress : Progress)
  | emit (record : T) (progress : Progress)
  | raise (error : SourceRecordError ε Raw) (progress : Progress)

namespace RowSettings

variable (settings : RowSettings ε T Row Item Raw)

/-- The body of every loop for a row that is not skipped. -/
def takeRow (number : ℕ) (item : Item) (progress : Progress) : RowStep ε T Raw :=
  let progress := progress.reached number
  match settings.handle item with
  | .blank => .pass progress
  | .record record => .emit record progress
  | .dropped => .pass progress.dropped
  | .failed exc raw =>
    match settings.onRecordError with
    | .logAndContinue => .pass progress.errored.dropped
    | .failClosed =>
      .raise ⟨exc, raw, settings.checkpointOf number, settings.sourceName, "source_record"⟩
        progress.errored

/-- The loop of `stream_sync_batches`, from the row after the one with the number. -/
def syncLoop (resume : ℕ) : List Row → ℕ → Progress → SourceRun T ε Raw
  | [], _, progress => .finish progress
  | row :: rows, number, progress =>
    if number + 1 ≤ resume then syncLoop resume rows (number + 1) progress
    else
      match settings.takeRow (number + 1) (settings.read row) progress with
      | .pass progress => syncLoop resume rows (number + 1) progress
      | .emit record progress =>
        (syncLoop resume rows (number + 1) progress).yielding record
          (settings.checkpointOf progress.lastNumber)
      | .raise error progress => .raise error progress

/-- The loop of `stream_batches`, with the batch that is being filled. -/
def batchLoop (resume emitBatchSize : ℕ) :
    List Row → ℕ → List T → Progress → SourceRun (List T) ε Raw
  | [], _, batch, progress =>
    if batch.isEmpty then .finish progress
    else SourceRun.yielding batch (settings.checkpointOf progress.lastNumber) (.finish progress)
  | row :: rows, number, batch, progress =>
    if number + 1 ≤ resume then batchLoop resume emitBatchSize rows (number + 1) batch progress
    else
      match settings.takeRow (number + 1) (settings.read row) progress with
      | .pass progress => batchLoop resume emitBatchSize rows (number + 1) batch progress
      | .emit record progress =>
        if emitBatchSize ≤ (batch ++ [record]).length then
          (batchLoop resume emitBatchSize rows (number + 1) [] progress).yielding
            (batch ++ [record]) (settings.checkpointOf progress.lastNumber)
        else batchLoop resume emitBatchSize rows (number + 1) (batch ++ [record]) progress
      | .raise error progress => .raise error progress

/-- The batch of `_read_batch`, the rows after it and the number of the last row before these. Blank
rows are read, but the size is not looked at after them. -/
def readBatch (resume batchSize : ℕ) :
    List Row → ℕ → List (ℕ × Item) → List (ℕ × Item) × List Row × ℕ
  | [], number, batch => (batch, [], number)
  | row :: rows, number, batch =>
    if number + 1 ≤ resume then readBatch resume batchSize rows (number + 1) batch
    else
      match settings.handle (settings.read row) with
      | .blank => readBatch resume batchSize rows (number + 1)
          (batch ++ [(number + 1, settings.read row)])
      | _ =>
        if batchSize ≤ (batch ++ [(number + 1, settings.read row)]).length then
          (batch ++ [(number + 1, settings.read row)], rows, number + 1)
        else readBatch resume batchSize rows (number + 1)
          (batch ++ [(number + 1, settings.read row)])

/-- The loop over the rows that were read ahead. -/
def handleBatch : List (ℕ × Item) → Progress → SourceRun T ε Raw
  | [], progress => .finish progress
  | (number, item) :: items, progress =>
    match settings.takeRow number item progress with
    | .pass progress => handleBatch items progress
    | .emit record progress =>
      (handleBatch items progress).yielding record (settings.checkpointOf progress.lastNumber)
    | .raise error progress => .raise error progress

/-! ### Numbered rows

The rows that a loop does not skip, with their numbers. -/

/-- The rows with their numbers, from the one after `number`. -/
def numbered : List Row → ℕ → List (ℕ × Item)
  | [], _ => []
  | row :: rows, number => (number + 1, settings.read row) :: numbered rows (number + 1)

/-- The numbered rows that a source does not skip. -/
def unskipped (resume : ℕ) (rows : List Row) (number : ℕ) : List (ℕ × Item) :=
  (settings.numbered rows number).filter fun item => resume < item.1

/-- A row up to the resume number is skipped. -/
theorem unskipped_cons_of_le {resume number : ℕ} (row : Row) (rows : List Row)
    (h : number + 1 ≤ resume) :
    settings.unskipped resume (row :: rows) number =
      settings.unskipped resume rows (number + 1) := by
  unfold unskipped
  rw [numbered, List.filter_cons_of_neg (by simpa using h)]

/-- A later one is read. -/
theorem unskipped_cons_of_lt {resume number : ℕ} (row : Row) (rows : List Row)
    (h : ¬ number + 1 ≤ resume) :
    settings.unskipped resume (row :: rows) number =
      (number + 1, settings.read row) :: settings.unskipped resume rows (number + 1) := by
  unfold unskipped
  rw [numbered, List.filter_cons_of_pos (by simpa using h)]

/-- Rows are numbered from the start on. -/
theorem lt_of_mem_numbered {rows : List Row} {number : ℕ} {item : ℕ × Item}
    (h : item ∈ settings.numbered rows number) : number < item.1 := by
  induction rows generalizing number with
  | nil => exact absurd h List.not_mem_nil
  | cons row rows ih =>
    rw [numbered, List.mem_cons] at h
    rcases h with rfl | h
    · exact Nat.lt_succ_self number
    · exact Nat.lt_of_succ_lt (ih h)

/-- The numbers go up. -/
theorem pairwise_numbered (rows : List Row) (number : ℕ) :
    (settings.numbered rows number).Pairwise fun item later => item.1 < later.1 := by
  induction rows generalizing number with
  | nil => exact List.Pairwise.nil
  | cons row rows ih =>
    rw [numbered, List.pairwise_cons]
    exact ⟨fun item h => settings.lt_of_mem_numbered h, ih (number + 1)⟩

/-- The numbers increase. -/
theorem pairwise_unskipped (resume : ℕ) (rows : List Row) (number : ℕ) :
    (settings.unskipped resume rows number).Pairwise fun item later => item.1 < later.1 :=
  (settings.pairwise_numbered rows number).filter _

/-- Resuming later skips the same rows and some more. -/
theorem filter_unskipped {resume later : ℕ} (h : resume ≤ later) (rows : List Row) (number : ℕ) :
    (settings.unskipped resume rows number).filter (fun item => later < item.1) =
      settings.unskipped later rows number := by
  unfold unskipped
  rw [List.filter_filter]
  refine List.filter_congr fun item _ => ?_
  rw [← Bool.decide_and]
  exact decide_eq_decide.mpr ⟨fun hitem => hitem.1, fun hitem => ⟨hitem, lt_of_le_of_lt h hitem⟩⟩

/-! ### The records of numbered rows -/

/-- The records of numbered rows with their checkpoints, up to a row that raises. -/
def emitted : List (ℕ × Item) → List (T × CheckpointValue)
  | [] => []
  | (number, item) :: items =>
    match settings.handle item with
    | .blank => emitted items
    | .record record => (record, settings.checkpointOf number) :: emitted items
    | .dropped => emitted items
    | .failed _ _ =>
      match settings.onRecordError with
      | .logAndContinue => emitted items
      | .failClosed => []

/-- What a row adds to the records, by the step that the loops take. -/
theorem emitted_cons (number : ℕ) (item : Item) (items : List (ℕ × Item)) (progress : Progress) :
    settings.emitted ((number, item) :: items) =
      match settings.takeRow number item progress with
      | .pass _ => settings.emitted items
      | .emit record _ => (record, settings.checkpointOf number) :: settings.emitted items
      | .raise _ _ => [] := by
  unfold takeRow
  rw [emitted]
  cases settings.handle item with
  | blank => rfl
  | record record => rfl
  | dropped => rfl
  | failed exc raw => cases settings.onRecordError <;> rfl

/-- A step reaches the row it is given. -/
theorem lastNumber_takeRow (number : ℕ) (item : Item) (progress : Progress) :
    (∀ next, settings.takeRow number item progress = .pass next → next.lastNumber = number) ∧
    (∀ record next, settings.takeRow number item progress = .emit record next →
      next.lastNumber = number) ∧
    (∀ error next, settings.takeRow number item progress = .raise error next →
      next.lastNumber = number ∧ error.checkpoint = settings.checkpointOf number) := by
  unfold takeRow
  cases settings.handle item with
  | blank => simp
  | record record => simp
  | dropped => simp
  | failed exc raw =>
    cases settings.onRecordError with
    | logAndContinue => simp
    | failClosed =>
      refine ⟨nofun, nofun, ?_⟩
      rintro _ _ ⟨⟩
      exact ⟨rfl, rfl⟩

/-- Handling items yields what they emit. -/
theorem yields_handleBatch (items : List (ℕ × Item)) (progress : Progress) :
    (settings.handleBatch items progress).yields = settings.emitted items := by
  induction items generalizing progress with
  | nil => rfl
  | cons item items ih =>
    obtain ⟨number, item⟩ := item
    rw [handleBatch, settings.emitted_cons number item items progress]
    obtain ⟨-, hemit, -⟩ := settings.lastNumber_takeRow number item progress
    split
    next next hstep => exact ih next
    next record next hstep =>
      rw [hemit record next hstep]
      exact congrArg _ (ih next)
    next error next hstep => rfl

/-- After any record come the records of the rows with greater numbers. -/
theorem emitted_split {items : List (ℕ × Item)}
    (hsorted : items.Pairwise fun item later => item.1 < later.1)
    {front rest : List (T × CheckpointValue)} {record : T} {value : CheckpointValue}
    (h : settings.emitted items = front ++ (record, value) :: rest) :
    ∃ number, (∃ item ∈ items, item.1 = number) ∧ value = settings.checkpointOf number ∧
      settings.emitted (items.filter fun item => number < item.1) = rest := by
  induction items generalizing front with
  | nil => simp [emitted] at h
  | cons item items ih =>
    obtain ⟨number, item⟩ := item
    obtain ⟨hbelow, hsorted⟩ := List.pairwise_cons.mp hsorted
    have hlater : ∀ {front}, settings.emitted items = front ++ (record, value) :: rest →
        ∃ number', (∃ item' ∈ (number, item) :: items, item'.1 = number') ∧
          value = settings.checkpointOf number' ∧
          settings.emitted (((number, item) :: items).filter fun item => number' < item.1) =
            rest := by
      intro front h
      obtain ⟨number', ⟨item', hitem', hnumber⟩, hvalue, hrest⟩ := ih hsorted h
      have hlt : number < number' := by
        rw [← hnumber]
        exact hbelow item' hitem'
      refine ⟨number', ⟨item', List.mem_cons_of_mem _ hitem', hnumber⟩, hvalue, ?_⟩
      rw [List.filter_cons_of_neg (by simpa using hlt.le)]
      exact hrest
    rw [settings.emitted_cons number item items {}] at h
    split at h
    next next hstep => exact hlater h
    next head next hstep =>
      cases front with
      | cons first front =>
        rw [List.cons_append, List.cons_eq_cons] at h
        exact hlater h.2
      | nil =>
        rw [List.nil_append, List.cons_eq_cons] at h
        obtain ⟨hhead, hrest⟩ := h
        refine ⟨number, ⟨(number, item), List.mem_cons_self, rfl⟩, (Prod.mk.inj hhead).2.symm, ?_⟩
        rw [List.filter_cons_of_neg (by simp), List.filter_eq_self.mpr ?_]
        · exact hrest
        · intro later hmem
          simpa using hbelow later hmem
    next error next hstep => simp at h

end RowSettings

end AgoraEtl.File
