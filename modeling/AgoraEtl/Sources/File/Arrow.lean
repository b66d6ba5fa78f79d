import AgoraEtl.Sources.File.Rows
import Mathlib.Tactic.Set

/-!
# `ArrowCsvSource` and `ArrowJsonLinesSource`

Both sources have the file read as a list of Arrow batches and count the rows of the batches that they
have yielded; the count is their checkpoint.  `prepareResume` accepts or rejects the identity of a
checkpoint and does not look at its value, so every run starts with the first batch.  The reader
(PyArrow, or the Rust bridge) is a function from the batch size and the rows to the batches.
-/

namespace AgoraEtl.File

variable {Row : Type}

/-- Which of the two sources. -/
inductive ArrowKind where
  | csv
  | jsonLines
  deriving DecidableEq

/-- The settings of a source. -/
structure ArrowSource where
  kind : ArrowKind
  batchSize : ℤ := 65536
  sourceIdentityMismatchPolicy : SourceIdentityMismatchPolicy := .failClosed

namespace ArrowSource

variable (s : ArrowSource)

def settings : ResumeSettings where
  sourceName := match s.kind with
    | .csv => "arrow_csv"
    | .jsonLines => "arrow_jsonl"
  checkpointKey := "rows"
  mismatchPolicy := s.sourceIdentityMismatchPolicy

/-- `current_checkpoint`, by the count `_rows_read`. -/
def currentCheckpoint (rowsRead : ℕ) : CheckpointValue := s.settings.checkpointOf rowsRead

/-- `prepare_resume` leaves the count as it is. -/
def prepareResume (current : String) (checkpoint : Option (Checkpoint CheckpointValue))
    (rowsRead : ℕ) : Except String ℕ := do
  let _ ← s.settings.acceptCheckpointIdentity current checkpoint
  pure rowsRead

/-- Each batch with the count when it is yielded. -/
def yieldBatches : ℕ → List (List Row) → List (List Row × ℕ)
  | _, [] => []
  | rowsRead, batch :: batches =>
    (batch, rowsRead + batch.length) :: yieldBatches (rowsRead + batch.length) batches

variable (read : ℕ → List Row → List (List Row))

/-- `stream_batches`: the CSV source resets the count first. -/
def streamBatches (rows : List Row) (rowsRead : ℕ) : List (List Row × ℕ) :=
  yieldBatches (match s.kind with
    | .csv => 0
    | .jsonLines => rowsRead) (read (max s.batchSize 1).toNat rows)

/-- The counts that an object can have after runs over the file. -/
inductive Counted (rows : List Row) : ℕ → Prop where
  | new : Counted rows 0
  | ran {rowsRead : ℕ} {item : List Row × ℕ} (before : Counted rows rowsRead)
      (yielded : item ∈ s.streamBatches read rows rowsRead) : Counted rows item.2

/-- The cursor was reported by `current_checkpoint` in an earlier run over the file. -/
def Reports (rows : List Row) (k : ℕ) : Prop :=
  ∃ rowsRead, s.Counted read rows rowsRead ∧
    s.currentCheckpoint rowsRead = some [(s.settings.checkpointKey, k)]

/-- A run yields the rows after the cursor and counts from the start of the file. -/
def ContinuesAfter (rows : List Row) (k : ℕ) (items : List (List Row × ℕ)) : Prop :=
  items.flatMap Prod.fst = rows.drop k ∧
    ∀ front batch rowsRead rest, items = front ++ (batch, rowsRead) :: rest →
      rowsRead = k + (front.flatMap Prod.fst).length + batch.length

/-- A run that is stopped after a number of batches, of a new object or of the one before. -/
structure Attempt where
  fresh : Bool
  stop : ℕ

/-- The count of the object in which a run starts. -/
def Attempt.counterOf (fresh : Bool) (rowsRead : ℕ) : ℕ := if fresh then 0 else rowsRead

/-- The items of runs that are stopped and of a last one that is not.  Each run finds the checkpoint
that was reported last. -/
def runs (current : String) (snapshot : CheckpointValue → Checkpoint CheckpointValue)
    (rows : List Row) (lastFresh : Bool) :
    ℕ → Option (Checkpoint CheckpointValue) → List Attempt → Except String (List (List Row × ℕ))
  | rowsRead, saved, [] => do
    let start ← s.prepareResume current saved (Attempt.counterOf lastFresh rowsRead)
    pure (s.streamBatches read rows start)
  | rowsRead, saved, attempt :: attempts => do
    let start ← s.prepareResume current saved (Attempt.counterOf attempt.fresh rowsRead)
    let items := (s.streamBatches read rows start).take attempt.stop
    let last := items.getLast?.map Prod.snd
    let reported := last.bind fun rowsRead => s.currentCheckpoint rowsRead
    let later ← runs current snapshot rows lastFresh (last.getD start)
      (match reported with
        | some value => some (snapshot (some value))
        | none => saved) attempts
    pure (items ++ later)

/-! ### Counting the rows of batches -/

@[simp]
theorem map_fst_yieldBatches (rowsRead : ℕ) (batches : List (List Row)) :
    (yieldBatches rowsRead batches).map Prod.fst = batches := by
  induction batches generalizing rowsRead with
  | nil => rfl
  | cons batch batches ih => rw [yieldBatches, List.map_cons, ih]

theorem flatMap_fst_yieldBatches (rowsRead : ℕ) (batches : List (List Row)) :
    (yieldBatches rowsRead batches).flatMap Prod.fst = batches.flatten := by
  rw [List.flatMap_def, map_fst_yieldBatches]

theorem take_yieldBatches (rowsRead : ℕ) (batches : List (List Row)) (stop : ℕ) :
    (yieldBatches rowsRead batches).take stop = yieldBatches rowsRead (batches.take stop) := by
  induction batches generalizing rowsRead stop with
  | nil => simp [yieldBatches]
  | cons batch batches ih =>
    cases stop with
    | zero => rfl
    | succ stop => rw [yieldBatches, List.take_succ_cons, ih, List.take_succ_cons, yieldBatches]

/-- Every count is the number of rows up to it exactly where the items are those of one count. -/
theorem counts_iff (k : ℕ) (items : List (List Row × ℕ)) :
    (∀ front batch rowsRead rest, items = front ++ (batch, rowsRead) :: rest →
      rowsRead = k + (front.flatMap Prod.fst).length + batch.length) ↔
      items = yieldBatches k (items.map Prod.fst) := by
  induction items generalizing k with
  | nil => simp [yieldBatches]
  | cons item items ih =>
    obtain ⟨batch, rowsRead⟩ := item
    rw [List.map_cons, yieldBatches, List.cons.injEq, ← ih]
    constructor
    · intro h
      have hfirst : rowsRead = k + batch.length := h [] batch rowsRead items rfl
      refine ⟨by rw [hfirst], fun front batch' rowsRead' rest hsplit => ?_⟩
      have hlater := h ((batch, rowsRead) :: front) batch' rowsRead' rest (by rw [hsplit]; rfl)
      rw [hlater, List.flatMap_cons, List.length_append]
      dsimp only
      omega
    · rintro ⟨hfirst, hlater⟩ front batch' rowsRead' rest hsplit
      have hcount : rowsRead = k + batch.length := (Prod.mk.inj hfirst).2
      cases front with
      | nil =>
        obtain ⟨hitem, -⟩ := List.cons.inj hsplit
        obtain ⟨rfl, rfl⟩ := Prod.mk.inj hitem
        exact hcount
      | cons item front =>
        obtain ⟨rfl, hrest⟩ := List.cons.inj hsplit
        rw [hlater front batch' rowsRead' rest hrest, List.flatMap_cons, List.length_append]
        dsimp only
        omega

variable {s read}

section Reader

variable (hread : ∀ size (rows : List Row), (read size rows).flatten = rows)
include hread

theorem flatMap_streamBatches (rows : List Row) (rowsRead : ℕ) :
    (s.streamBatches read rows rowsRead).flatMap Prod.fst = rows := by
  rw [streamBatches, flatMap_fst_yieldBatches, hread]

/-- Of a file without rows nothing is counted. -/
theorem Counted.eq_zero {rowsRead : ℕ} (h : s.Counted read [] rowsRead) : rowsRead = 0 := by
  induction h with
  | new => rfl
  | @ran rowsRead item before yielded ih =>
    subst ih
    have hrows := flatMap_streamBatches (s := s) hread [] 0
    obtain ⟨front, rest, hsplit⟩ := List.append_of_mem yielded
    have hcount : s.streamBatches read [] 0 =
        yieldBatches 0 ((s.streamBatches read [] 0).map Prod.fst) := by
      unfold streamBatches
      cases s.kind <;> simp only [map_fst_yieldBatches]
    rw [(counts_iff 0 _).mpr hcount front item.1 item.2 rest hsplit, Nat.zero_add]
    rw [hsplit, List.flatMap_append, List.flatMap_cons, List.append_eq_nil_iff,
      List.append_eq_nil_iff] at hrows
    rw [hrows.1, hrows.2.1]
    rfl

/-- No run after an accepted cursor continues behind it. -/
theorem not_continuesAfter {rows : List Row} {k : ℕ} (hk : s.Reports read rows k) (rowsRead : ℕ) :
    ¬ ContinuesAfter rows k (s.streamBatches read rows rowsRead) := by
  obtain ⟨counted, hcounted, hreport⟩ := hk
  have hpositive : 0 < k ∧ counted = k := by
    unfold currentCheckpoint ResumeSettings.checkpointOf at hreport
    split at hreport
    next => exact nomatch hreport
    next hpos =>
      have hsame : counted = k := by simpa using hreport
      exact ⟨by omega, hsame⟩
  obtain ⟨hpos, rfl⟩ := hpositive
  have hrows : rows ≠ [] := by
    rintro rfl
    have hzero := hcounted.eq_zero hread
    omega
  rintro ⟨hitems, -⟩
  rw [flatMap_streamBatches hread] at hitems
  have hlength : rows.length = rows.length - counted := by
    rw [← List.length_drop, ← hitems]
  have hsome : 0 < rows.length := List.length_pos_iff.mpr hrows
  omega

/-- The batches that an attempt is given before it is stopped. -/
def Attempt.batches (s : ArrowSource) (read : ℕ → List Row → List (List Row)) (rows : List Row)
    (attempt : Attempt) : List (List Row) :=
  (read (max s.batchSize 1).toNat rows).take attempt.stop

variable {current : String} {snapshot : CheckpointValue → Checkpoint CheckpointValue}

/-- Runs over one file accept its checkpoints, and each of them starts over. -/
theorem runs_eq (hsame : ∀ value, (snapshot value).sourceIdentity = some current) (rows : List Row)
    (lastFresh : Bool) (attempts : List Attempt) (rowsRead : ℕ)
    (saved : Option (Checkpoint CheckpointValue))
    (hsaved : ∀ checkpoint ∈ saved, checkpoint.sourceIdentity = some current) :
    ∃ items, s.runs read current snapshot rows lastFresh rowsRead saved attempts = .ok items ∧
      items.flatMap Prod.fst =
        attempts.flatMap (fun attempt => (attempt.batches s read rows).flatten) ++ rows := by
  have haccept : ∀ (saved : Option (Checkpoint CheckpointValue)) (count : ℕ),
      (∀ checkpoint ∈ saved, checkpoint.sourceIdentity = some current) →
      s.prepareResume current saved count = .ok count := by
    intro saved count hsaved
    unfold prepareResume ResumeSettings.acceptCheckpointIdentity
    cases saved with
    | none => rfl
    | some checkpoint =>
      dsimp only
      rw [if_pos (hsaved checkpoint rfl)]
      rfl
  induction attempts generalizing rowsRead saved with
  | nil =>
    refine ⟨_, by rw [runs, haccept saved _ hsaved]; rfl, ?_⟩
    rw [List.flatMap_nil, List.nil_append, flatMap_streamBatches hread]
  | cons attempt attempts ih =>
    have hitems : ((s.streamBatches read rows (Attempt.counterOf attempt.fresh rowsRead)).take
        attempt.stop).flatMap Prod.fst = (attempt.batches s read rows).flatten := by
      rw [streamBatches, take_yieldBatches, flatMap_fst_yieldBatches, Attempt.batches]
    rw [runs, haccept saved _ hsaved]
    dsimp only [bind, Except.bind]
    set items := (s.streamBatches read rows (Attempt.counterOf attempt.fresh rowsRead)).take
      attempt.stop
    obtain ⟨later, hrun, hrows⟩ := ih
      ((items.getLast?.map Prod.snd).getD (Attempt.counterOf attempt.fresh rowsRead))
      (match (items.getLast?.map Prod.snd).bind fun rowsRead => s.currentCheckpoint rowsRead with
        | some value => some (snapshot (some value))
        | none => saved) (by
          intro checkpoint hmem
          split at hmem
          · obtain rfl := Option.some.inj hmem
            exact hsame _
          · exact hsaved checkpoint hmem)
    refine ⟨items ++ later, ?_, ?_⟩
    · rw [hrun]
      rfl
    · rw [List.flatMap_append, hitems, hrows, List.flatMap_cons, List.append_assoc]

/-- Every run yields the whole file and, in an object that has not counted rows of another run, counts
from its start, whatever checkpoint it accepted; so of runs that are stopped and resumed each delivers
the file from its first row. -/
theorem runs_startOver (hsame : ∀ value, (snapshot value).sourceIdentity = some current)
    (rows : List Row) :
    (∀ checkpoint rowsRead start, s.prepareResume current checkpoint rowsRead = .ok start →
      (s.streamBatches read rows start).flatMap Prod.fst = rows ∧
      (s.kind = .csv ∨ rowsRead = 0 → ContinuesAfter rows 0 (s.streamBatches read rows start))) ∧
    ∀ lastFresh attempts,
      ∃ items, s.runs read current snapshot rows lastFresh 0 none attempts = .ok items ∧
        items.flatMap Prod.fst =
          attempts.flatMap (fun attempt => (attempt.batches s read rows).flatten) ++ rows := by
  constructor
  · intro checkpoint rowsRead start hprepare
    have hstart : start = rowsRead := by
      unfold prepareResume at hprepare
      cases haccept : s.settings.acceptCheckpointIdentity current checkpoint with
      | error message =>
        rw [haccept] at hprepare
        exact nomatch hprepare
      | ok accepted =>
        rw [haccept] at hprepare
        exact (Except.ok.inj hprepare).symm
    refine ⟨flatMap_streamBatches hread rows start, fun hcount => ?_⟩
    refine ⟨flatMap_streamBatches hread rows start, (counts_iff 0 _).mpr ?_⟩
    unfold streamBatches
    rcases hcount with hcsv | rfl
    · rw [hcsv, map_fst_yieldBatches]
    · subst hstart
      cases s.kind <;> rw [map_fst_yieldBatches]
  · intro lastFresh attempts
    exact runs_eq hread hsame rows lastFresh attempts 0 none fun _ hmem => nomatch hmem

end Reader

/-- A reader that cuts files of at most two batches into these. -/
def readTwo (size : ℕ) (rows : List Row) : List (List Row) := [rows.take size, rows.drop size]

/-- A checkpoint of the file with the identity `"file"`. -/
def savedCheckpoint (value : CheckpointValue) : Checkpoint CheckpointValue :=
  ⟨"pipeline", "run", "arrow_csv", value, some "file"⟩

theorem runs_startOver_three :
    (∀ checkpoint rowsRead start,
      (⟨.csv, 2, .failClosed⟩ : ArrowSource).prepareResume "file" checkpoint rowsRead = .ok start →
      ((⟨.csv, 2, .failClosed⟩ : ArrowSource).streamBatches readTwo [1, 2, 3] start).flatMap Prod.fst =
        [1, 2, 3] ∧
      ((⟨.csv, 2, .failClosed⟩ : ArrowSource).kind = .csv ∨ rowsRead = 0 → ContinuesAfter [1, 2, 3] 0
        ((⟨.csv, 2, .failClosed⟩ : ArrowSource).streamBatches readTwo [1, 2, 3] start))) ∧
    ∀ lastFresh attempts,
      ∃ items, (⟨.csv, 2, .failClosed⟩ : ArrowSource).runs readTwo "file" savedCheckpoint [1, 2, 3]
          lastFresh 0 none attempts = .ok items ∧
        items.flatMap Prod.fst = attempts.flatMap (fun attempt =>
          (attempt.batches ⟨.csv, 2, .failClosed⟩ readTwo [1, 2, 3]).flatten) ++ [1, 2, 3] :=
  runs_startOver (s := ⟨.csv, 2, .failClosed⟩) (fun size rows => by simp [readTwo])
    (fun _ => rfl) [1, 2, 3]

/-- A CSV source that was stopped after the first batch of two rows reports the cursor 2; resumed at
it, also in a new object, it yields all three rows again. -/
theorem not_continuesAfter_three :
    (⟨.csv, 2, .failClosed⟩ : ArrowSource).Reports readTwo [1, 2, 3] 2 ∧
    (⟨.csv, 2, .failClosed⟩ : ArrowSource).prepareResume "file"
      (some (savedCheckpoint (some [("rows", 2)]))) 0 = .ok 0 ∧
    (⟨.csv, 2, .failClosed⟩ : ArrowSource).streamBatches readTwo [1, 2, 3] 0 =
      [([1, 2], 2), ([3], 3)] ∧
    ¬ ContinuesAfter [1, 2, 3] 2
      ((⟨.csv, 2, .failClosed⟩ : ArrowSource).streamBatches readTwo [1, 2, 3] 0) := by
  have hfirst : (([1, 2], 2) : List ℕ × ℕ) ∈
      (⟨.csv, 2, .failClosed⟩ : ArrowSource).streamBatches readTwo [1, 2, 3] 0 := by decide
  have hreports : (⟨.csv, 2, .failClosed⟩ : ArrowSource).Reports readTwo [1, 2, 3] 2 :=
    ⟨2, .ran .new hfirst, rfl⟩
  have hread : ∀ size (rows : List ℕ), (readTwo size rows).flatten = rows :=
    fun size rows => by simp [readTwo]
  exact ⟨hreports, by decide, by decide, not_continuesAfter hread hreports 0⟩

end ArrowSource

end AgoraEtl.File
