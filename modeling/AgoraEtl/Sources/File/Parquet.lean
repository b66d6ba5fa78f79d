import AgoraEtl.Sources.File.Paths

/-!
# Parquet sources

`ParquetSource` over the batches that PyArrow reads. Its loops number the rows from the one it is to
resume from, but read the file from its first row, so that no row is skipped: a resumed run yields
the whole file again, under later numbers. The rows of a run that is not resumed are numbered right.
-/

namespace AgoraEtl.File

open Resumption

variable {ε T Row Item Raw : Type}

/-! ### The loops -/

namespace RowSettings

variable (settings : RowSettings ε T Row Item Raw)

/-- The loop of `ParquetSource.stream_sync_batches`. -/
def syncBatchesLoop (resume : ℕ) : List (List Row) → ℕ → Progress → SourceRun T ε Raw
  | [], _, progress => .finish progress
  | batch :: batches, number, progress =>
    if number + batch.length ≤ resume then
      syncBatchesLoop resume batches (number + batch.length) progress
    else
      (settings.syncLoop resume batch number progress).andThen
        (syncBatchesLoop resume batches (number + batch.length))

/-- The loop of `ParquetSource.read_records`. -/
def readBatchesLoop (resume : ℕ) : List (List Row) → ℕ → Progress → SourceRun T ε Raw
  | [], _, progress => .finish progress
  | batch :: batches, number, progress =>
    (settings.syncLoop resume batch number progress).andThen
      (readBatchesLoop resume batches (number + batch.length))

end RowSettings

/-- The batches that the producer of `stream_batches` puts into the queue. -/
def produce (resume : ℕ) : List (List Row) → ℕ → List (List Row)
  | [], _ => []
  | batch :: batches, number =>
    if number + batch.length ≤ resume then produce resume batches (number + batch.length)
    else if number < resume then
      batch.drop (resume - number) ::
        produce resume batches (resume + (batch.drop (resume - number)).length)
    else batch :: produce resume batches (number + batch.length)

/-- The consumer of `stream_batches`, which counts the rows it hands over. -/
def consume (settings : ResumeSettings) : List (List Row) → Progress → SourceRun (List Row) ε Raw
  | [], progress => .finish progress
  | batch :: batches, progress =>
    (consume settings batches (progress.reached (progress.lastNumber + batch.length))).yielding batch
      (settings.checkpointOf (progress.lastNumber + batch.length))

/-- `ParquetSource`; `rowMapper` raises, returns a record, or returns `None`. -/
structure ParquetSource (ε T Row : Type) where
  rowMapper : Row → Except ε (Option T)
  onRecordError : SourceRecordFailurePolicy := .failClosed
  sourceIdentityMismatchPolicy : SourceIdentityMismatchPolicy := .failClosed
  resumeRowNumber : ℕ := 0
  progress : Progress := {}

namespace ParquetSource

def settings (source : ParquetSource ε T Row) : RowSettings ε T Row Row Row where
  sourceName := "parquet"
  checkpointKey := "row_number"
  mismatchPolicy := source.sourceIdentityMismatchPolicy
  read := id
  handle row :=
    match source.rowMapper row with
    | .ok (some record) => .record record
    | .ok none => .dropped
    | .error exc => .failed exc row
  onRecordError := source.onRecordError

def prepareResume (source : ParquetSource ε T Row) (identity : String)
    (checkpoint : Option (Checkpoint CheckpointValue)) : Except String (ParquetSource ε T Row) :=
  (source.settings.resumeNumber identity checkpoint).map fun number =>
    { source with resumeRowNumber := number }

def currentCheckpoint (source : ParquetSource ε T Row) : CheckpointValue :=
  source.settings.checkpointOf source.progress.lastNumber

def streamSyncBatches (source : ParquetSource ε T Row) (batches : List (List Row)) :
    SourceRun T ε Row :=
  source.settings.syncBatchesLoop source.resumeRowNumber batches source.resumeRowNumber
    source.progress.restarted

def readRecords (source : ParquetSource ε T Row) (batches : List (List Row)) :
    SourceRun T ε Row :=
  source.settings.readBatchesLoop source.resumeRowNumber batches source.resumeRowNumber
    source.progress.restarted

def streamBatches (source : ParquetSource ε T Row) (batches : List (List Row)) :
    SourceRun (List Row) ε Row :=
  consume source.settings.toResumeSettings
    (produce source.resumeRowNumber batches source.resumeRowNumber) source.progress.restarted

/-- The source after `prepare_resume` with a value of its own. -/
def resumedAt (source : ParquetSource ε T Row) (value : CheckpointValue) : ParquetSource ε T Row :=
  { source with resumeRowNumber := source.settings.numberOf value }

/-- `prepare_resume` accepts the checkpoints of the file it was called for. -/
theorem prepareResume_eq (source : ParquetSource ε T Row) {identity : String}
    {checkpoint : Checkpoint CheckpointValue} (hsame : checkpoint.sourceIdentity = some identity) :
    source.prepareResume identity (some checkpoint) = .ok (source.resumedAt checkpoint.value) := by
  rw [prepareResume, source.settings.resumeNumber_some hsame]
  rfl

end ParquetSource

/-! ### Rows are not skipped -/

namespace RowSettings

variable (settings : RowSettings ε T Row Item Raw)

/-- Rows that come later are numbered on. -/
theorem numbered_append (rows later : List Row) (number : ℕ) :
    settings.numbered (rows ++ later) number =
      settings.numbered rows number ++ settings.numbered later (number + rows.length) := by
  induction rows generalizing number with
  | nil => rfl
  | cons row rows ih =>
    rw [List.cons_append, numbered, numbered, ih, List.length_cons, List.cons_append,
      Nat.add_assoc number 1, Nat.add_comm 1]

/-- From the resume number on, no row is skipped. -/
theorem unskipped_of_le {resume number : ℕ} (h : resume ≤ number) (rows : List Row) :
    settings.unskipped resume rows number = settings.numbered rows number := by
  unfold unskipped
  refine List.filter_eq_self.mpr fun item hitem => ?_
  simpa using lt_of_le_of_lt h (settings.lt_of_mem_numbered hitem)

/-- A loop that starts at the resume number or later skips nothing. -/
theorem readBatchesLoop_eq {resume number : ℕ} (h : resume ≤ number) (batches : List (List Row))
    (progress : Progress) :
    settings.readBatchesLoop resume batches number progress =
      settings.handleBatch (settings.numbered batches.flatten number) progress := by
  induction batches generalizing number progress with
  | nil => rfl
  | cons batch batches ih =>
    rw [readBatchesLoop, settings.syncLoop_eq, settings.unskipped_of_le h, List.flatten_cons,
      settings.numbered_append, settings.handleBatch_append]
    exact congrArg _ (funext fun progress => ih (h.trans (Nat.le_add_right _ _)) progress)

/-- So does the loop over synchronous batches, which does the same. -/
theorem syncBatchesLoop_eq {resume number : ℕ} (h : resume ≤ number) (batches : List (List Row))
    (progress : Progress) :
    settings.syncBatchesLoop resume batches number progress =
      settings.readBatchesLoop resume batches number progress := by
  induction batches generalizing number progress with
  | nil => rfl
  | cons batch batches ih =>
    have hnext : resume ≤ number + batch.length := h.trans (Nat.le_add_right _ _)
    rw [syncBatchesLoop, readBatchesLoop]
    split
    next hskip =>
      -- only a batch without rows passes the test
      have hempty : batch = [] := List.length_eq_zero_iff.mp (by omega)
      rw [ih hnext, hempty]
      rfl
    next htake => exact congrArg _ (funext fun progress => ih hnext progress)

/-- The records of rows do not depend on the numbers of the rows. -/
theorem emitted_numbered (rows : List Row) (number number' : ℕ) :
    (settings.emitted (settings.numbered rows number)).map Prod.fst =
      (settings.emitted (settings.numbered rows number')).map Prod.fst := by
  induction rows generalizing number number' with
  | nil => rfl
  | cons row rows ih =>
    have ih := ih (number + 1) (number' + 1)
    rw [numbered, numbered, emitted, emitted]
    cases settings.handle (settings.read row) with
    | blank => exact ih
    | record record => exact congrArg (record :: ·) ih
    | dropped => exact ih
    | failed exc raw =>
      cases settings.onRecordError with
      | logAndContinue => exact ih
      | failClosed => rfl

/-- The checkpoints of records are those of some of the rows, in order. -/
theorem numbers_emitted_sublist (items : List (ℕ × Item)) :
    ((settings.emitted items).map fun record => settings.numberOf record.2).Sublist
      (items.map Prod.fst) := by
  induction items with
  | nil => exact List.Sublist.refl _
  | cons item items ih =>
    obtain ⟨number, item⟩ := item
    rw [settings.emitted_cons number item items {}, List.map_cons]
    cases settings.takeRow number item {} with
    | pass next => exact ih.cons number
    | emit record next =>
      dsimp only
      rw [List.map_cons, settings.numberOf_checkpointOf]
      exact ih.cons_cons number
    | raise error next => exact List.nil_sublist _

/-- The checkpoints of records go up. -/
theorem pairwise_emitted_numbered (rows : List Row) (number : ℕ) :
    (settings.emitted (settings.numbered rows number)).Pairwise fun first later =>
      settings.numberOf first.2 ≤ settings.numberOf later.2 := by
  have hnumbers := List.pairwise_map.mpr (settings.pairwise_numbered rows number)
  have hrecords := hnumbers.sublist (settings.numbers_emitted_sublist _)
  exact (List.pairwise_map.mp hrecords).imp Nat.le_of_lt

end RowSettings

/-! ### Batches of the producer and the consumer -/

/-- A producer that starts past the resume number hands all batches on. -/
theorem produce_of_lt {resume number : ℕ} (h : resume < number) (batches : List (List Row)) :
    produce resume batches number = batches := by
  induction batches generalizing number with
  | nil => rfl
  | cons batch batches ih =>
    rw [produce, if_neg (by omega), if_neg (by omega), ih (by omega)]

/-- The producer leaves out the batches without rows at the start of the file, and no others. -/
theorem produce_self (resume : ℕ) (batches : List (List Row)) :
    produce resume batches resume = batches.dropWhile List.isEmpty := by
  induction batches with
  | nil => rfl
  | cons batch batches ih =>
    cases batch with
    | nil =>
      rw [produce, if_pos (by simp), List.dropWhile_cons_of_pos rfl]
      exact ih
    | cons row batch =>
      rw [produce, if_neg (by simp), if_neg (by omega), produce_of_lt (by simp),
        List.dropWhile_cons_of_neg (by simp)]

/-- Empty batches have no rows. -/
theorem flatten_dropWhile_isEmpty (batches : List (List Row)) :
    (batches.dropWhile List.isEmpty).flatten = batches.flatten := by
  induction batches with
  | nil => rfl
  | cons batch batches ih =>
    cases batch with
    | nil =>
      rw [List.dropWhile_cons_of_pos rfl, ih]
      rfl
    | cons row batch => rw [List.dropWhile_cons_of_neg (by simp)]

/-- Of the batches after the empty ones at the start, the first has rows. -/
theorem take_dropWhile_isEmpty {batches : List (List Row)} {stop : ℕ}
    (h : ((batches.dropWhile List.isEmpty).take stop).flatten = []) :
    (batches.dropWhile List.isEmpty).take stop = [] := by
  induction batches with
  | nil => exact List.take_nil
  | cons batch batches ih =>
    cases batch with
    | nil =>
      rw [List.dropWhile_cons_of_pos rfl] at h ⊢
      exact ih h
    | cons row batch =>
      rw [List.dropWhile_cons_of_neg (by simp)] at h ⊢
      cases stop with
      | zero => rfl
      | succ stop => simp at h

/-- Only empty batches are left out if there is no row. -/
theorem dropWhile_isEmpty_eq_nil {batches : List (List Row)} :
    batches.dropWhile List.isEmpty = [] ↔ batches.flatten = [] := by
  constructor
  · intro h
    rw [← flatten_dropWhile_isEmpty, h]
    rfl
  · intro h
    rw [← flatten_dropWhile_isEmpty, ← List.take_length (l := batches.dropWhile List.isEmpty)] at h
    have htake := take_dropWhile_isEmpty h
    rwa [List.take_length] at htake

/-- The consumer yields the batches that it is given. -/
theorem records_consume (settings : ResumeSettings) (batches : List (List Row))
    (progress : Progress) :
    (consume settings batches progress : SourceRun (List Row) ε Raw).records = batches := by
  induction batches generalizing progress with
  | nil => rfl
  | cons batch batches ih => exact congrArg (batch :: ·) (ih _)

/-- The consumer adds the rows of every batch to the last row number of the source. -/
theorem checkpoint_consume {settings : ResumeSettings} {batches : List (List Row)}
    {progress : Progress} {front rest : List (List Row × CheckpointValue)} {batch : List Row}
    {value : CheckpointValue}
    (h : (consume settings batches progress : SourceRun (List Row) ε Raw).yields =
      front ++ (batch, value) :: rest) :
    value = settings.checkpointOf
      (progress.lastNumber + (front.flatMap Prod.fst ++ batch).length) := by
  induction batches generalizing progress front with
  | nil => simp [consume, SourceRun.finish] at h
  | cons first batches ih =>
    have hyields : (consume settings (first :: batches) progress :
        SourceRun (List Row) ε Raw).yields =
        (first, settings.checkpointOf (progress.lastNumber + first.length)) ::
          (consume settings batches (progress.reached (progress.lastNumber + first.length)) :
            SourceRun (List Row) ε Raw).yields := rfl
    rw [hyields] at h
    cases front with
    | nil =>
      rw [List.nil_append, List.cons_eq_cons] at h
      obtain ⟨rfl, rfl⟩ := Prod.mk.inj h.1
      rfl
    | cons head front =>
      rw [List.cons_append, List.cons_eq_cons] at h
      rw [ih h.2, ← h.1, Progress.lastNumber_reached, List.flatMap_cons]
      simp only [List.length_append, Nat.add_assoc]

/-- The checkpoints of batches go up from that of the source. -/
theorem pairwise_consume (settings : ResumeSettings) (batches : List (List Row))
    (progress : Progress) :
    ((consume settings batches progress : SourceRun (List Row) ε Raw).yields.Pairwise
      fun first later => settings.numberOf first.2 ≤ settings.numberOf later.2) ∧
    ∀ batch ∈ (consume settings batches progress : SourceRun (List Row) ε Raw).yields,
      progress.lastNumber ≤ settings.numberOf batch.2 := by
  induction batches generalizing progress with
  | nil => exact ⟨List.Pairwise.nil, fun batch h => absurd h List.not_mem_nil⟩
  | cons first batches ih =>
    obtain ⟨hpairwise, hfrom⟩ := ih (progress.reached (progress.lastNumber + first.length))
    rw [Progress.lastNumber_reached] at hfrom
    refine ⟨List.pairwise_cons.mpr ⟨fun batch hbatch => ?_, hpairwise⟩, fun batch hbatch => ?_⟩
    · rw [settings.numberOf_checkpointOf]
      exact hfrom batch hbatch
    · rcases List.mem_cons.mp hbatch with rfl | hbatch
      · rw [settings.numberOf_checkpointOf]
        exact Nat.le_add_right _ _
      · exact (Nat.le_add_right _ _).trans (hfrom batch hbatch)

/-! ### Runs that start over -/

/-- Stopped and resumed from the start, a stream shows what it shows when it is not stopped, and the
checkpoints do not go back. The content of an item is what matters of it. -/
def ChainRight {α β : Type} (settings : ResumeSettings) (content : α → List β)
    (run : CheckpointValue → List (α × CheckpointValue)) (stops : List ℕ) : Prop :=
  (resumed run none stops).flatMap (fun item => content item.1) =
      (run none).flatMap (fun item => content item.1) ∧
    (resumed run none stops).Pairwise fun first later =>
      settings.numberOf first.2 ≤ settings.numberOf later.2

/-- Runs that are stopped before their first item are like none. -/
theorem resumed_of_take_eq_nil {α κ : Type} {run : κ → List (α × κ)} (k : κ) {stops : List ℕ}
    (h : ∀ stop ∈ stops, (run k).take stop = []) : resumed run k stops = run k := by
  induction stops with
  | nil => rfl
  | cons stop stops ih =>
    obtain ⟨hstop, hstops⟩ := List.forall_mem_cons.mp h
    rw [resumed_cons, hstop, List.nil_append, cursorAfter_nil]
    exact ih hstops

/-- A stream whose runs start over must not be stopped after it has yielded anything. -/
theorem chainRight_iff {α β : Type} {settings : ResumeSettings} {content : α → List β}
    {run : CheckpointValue → List (α × CheckpointValue)} {items : List α}
    (hrun : ∀ value, (run value).map Prod.fst = items)
    (hpairwise : (run none).Pairwise fun first later =>
      settings.numberOf first.2 ≤ settings.numberOf later.2)
    (hcontent : ∀ stop, (items.take stop).flatMap content = [] → items.take stop = [])
    (stops : List ℕ) :
    ChainRight settings content run stops ↔ ∀ stop ∈ stops, stop = 0 ∨ items = [] := by
  have hflat : ∀ list : List (α × CheckpointValue),
      list.flatMap (fun item => content item.1) = (list.map Prod.fst).flatMap content :=
    fun list => (List.flatMap_map Prod.fst content list).symm
  constructor
  · rintro ⟨hsame, -⟩ stop hstop
    rw [hflat, hflat, map_resumed_of_restarting hrun, hrun, List.flatMap_append] at hsame
    have hnil := List.append_left_eq_self.mp hsame
    rw [List.flatMap_assoc, List.flatMap_eq_nil_iff] at hnil
    exact List.take_eq_nil_iff.mp (hcontent stop (hnil stop hstop))
  · intro h
    have hstops : ∀ stop ∈ stops, (run none).take stop = [] := by
      intro stop hstop
      have hitems := List.take_eq_nil_iff.mpr (h stop hstop)
      rw [← hrun none, ← List.map_take] at hitems
      exact List.map_eq_nil_iff.mp hitems
    unfold ChainRight
    rw [resumed_of_take_eq_nil none hstops]
    exact ⟨rfl, hpairwise⟩

namespace ParquetSource

variable (source : ParquetSource ε T Row)

/-- A checkpoint that a run from the start has reported with a record, or none. -/
def SavedAfter (rows : List Row) (value : CheckpointValue) : Prop :=
  value = none ∨ ∃ record, (record, value) ∈ source.settings.emitted (source.settings.numbered rows 0)

/-- No row has a record before one that raises. -/
def Unmapped (rows : List Row) : Prop :=
  source.settings.emitted (source.settings.numbered rows 0) = []

/-- What was yielded are the records of the rows after the checkpoint, under their numbers. -/
def RowsRight (rows : List Row) (value : CheckpointValue)
    (yields : List (T × CheckpointValue)) : Prop :=
  yields = source.settings.emitted
    (source.settings.unskipped (source.settings.numberOf value) rows 0)

/-- What was yielded are the rows after the one with the number, and every batch was reported with
the number of its last row. -/
def BatchesRight (rows : List Row) (number : ℕ)
    (yields : List (List Row × CheckpointValue)) : Prop :=
  yields.flatMap Prod.fst = rows.drop number ∧
    ∀ front batch value rest, yields = front ++ (batch, value) :: rest →
      value = source.settings.checkpointOf (number + (front.flatMap Prod.fst ++ batch).length)

/-- All rows are read, numbered from the resume number. -/
theorem yields_readRecords (batches : List (List Row)) :
    (source.readRecords batches).yields =
      source.settings.emitted (source.settings.numbered batches.flatten source.resumeRowNumber) := by
  rw [readRecords, source.settings.readBatchesLoop_eq le_rfl, source.settings.yields_handleBatch]

/-- So are those of the synchronous stream. -/
theorem yields_streamSyncBatches (batches : List (List Row)) :
    (source.streamSyncBatches batches).yields =
      source.settings.emitted (source.settings.numbered batches.flatten source.resumeRowNumber) := by
  rw [← source.yields_readRecords, streamSyncBatches, source.settings.syncBatchesLoop_eq le_rfl]
  rfl

/-- The stream of batches has all but the empty ones at its start. -/
theorem records_streamBatches (batches : List (List Row)) :
    (source.streamBatches batches).records = batches.dropWhile List.isEmpty := by
  rw [streamBatches, records_consume, produce_self]

/-- The checkpoint of a batch is counted on from the resume number. -/
theorem checkpoint_streamBatches {batches : List (List Row)}
    {front rest : List (List Row × CheckpointValue)} {batch : List Row} {value : CheckpointValue}
    (h : (source.streamBatches batches).yields = front ++ (batch, value) :: rest) :
    value = source.settings.checkpointOf
      (source.progress.lastNumber + (front.flatMap Prod.fst ++ batch).length) := by
  unfold streamBatches at h
  have hvalue := checkpoint_consume h
  exact hvalue

/-- Rows that are numbered from a checkpoint on are wrong unless there was none: the row of the
checkpoint comes again. -/
theorem rowsRight_iff {rows : List Row} {value : CheckpointValue}
    (hsaved : source.SavedAfter rows value) :
    source.RowsRight rows value (source.settings.emitted
      (source.settings.numbered rows (source.settings.numberOf value))) ↔ value = none := by
  constructor
  · intro hright
    rcases hsaved with hnone | ⟨record, hmem⟩
    · exact hnone
    · exfalso
      obtain ⟨front, rest, hsplit⟩ := List.append_of_mem hmem
      have hall : source.settings.unskipped 0 rows 0 = source.settings.numbered rows 0 :=
        source.settings.unskipped_of_le le_rfl rows
      have hrest : source.settings.emitted
          (source.settings.unskipped (source.settings.numberOf value) rows 0) = rest := by
        refine source.settings.resumable_emitted rows none front record value rest ?_
        rw [← hall] at hsplit
        exact hsplit
      have hlength := congrArg List.length
        (source.settings.emitted_numbered rows (source.settings.numberOf value) 0)
      have hright' := hright.trans hrest
      rw [hright', hsplit] at hlength
      simp at hlength
      omega
  · rintro rfl
    unfold RowsRight
    have hzero : source.settings.numberOf none = 0 := rfl
    rw [hzero, source.settings.unskipped_of_le le_rfl]

/-- A resumed stream of batches is right only from the start, and only if nothing was counted before
or there is no row. -/
theorem batchesRight_iff (batches : List (List Row)) {number : ℕ}
    (hnumber : number ≤ batches.flatten.length) :
    source.BatchesRight batches.flatten number
        ((source.resumedAt (source.settings.checkpointOf number)).streamBatches batches).yields ↔
      number = 0 ∧ (source.progress.lastNumber = 0 ∨ batches.flatten = []) := by
  have hrecords : ((source.resumedAt (source.settings.checkpointOf number)).streamBatches
      batches).records = batches.dropWhile List.isEmpty := records_streamBatches _ batches
  have hrows : ((source.resumedAt (source.settings.checkpointOf number)).streamBatches
      batches).yields.flatMap Prod.fst = batches.flatten := by
    rw [← flatten_dropWhile_isEmpty, ← hrecords, SourceRun.records, List.flatMap_def]
  have hcheckpoint : ∀ front batch value rest,
      ((source.resumedAt (source.settings.checkpointOf number)).streamBatches batches).yields =
        front ++ (batch, value) :: rest →
      value = source.settings.checkpointOf
        (source.progress.lastNumber + (front.flatMap Prod.fst ++ batch).length) :=
    fun front batch value rest h =>
      (source.resumedAt (source.settings.checkpointOf number)).checkpoint_streamBatches h
  constructor
  · rintro ⟨hall, hvalues⟩
    rw [hrows] at hall
    have hzero : number = 0 := by
      have hlength := congrArg List.length hall
      rw [List.length_drop] at hlength
      by_contra hpos
      have hempty : batches.flatten.length = 0 := by omega
      omega
    refine ⟨hzero, ?_⟩
    rcases hyields : ((source.resumedAt (source.settings.checkpointOf number)).streamBatches
        batches).yields with _ | ⟨⟨batch, value⟩, rest⟩
    · right
      rw [← hrows, hyields]
      rfl
    · left
      have hspec := hvalues [] batch value rest hyields
      have hcode := hcheckpoint [] batch value rest hyields
      have hnumbers := congrArg source.settings.numberOf (hcode.symm.trans hspec)
      rw [ResumeSettings.numberOf_checkpointOf, ResumeSettings.numberOf_checkpointOf] at hnumbers
      omega
  · rintro ⟨rfl, hlast⟩
    refine ⟨hrows, fun front batch value rest h => ?_⟩
    rcases hlast with hlast | hempty
    · rw [hcheckpoint front batch value rest h, hlast]
    · have hnone := dropWhile_isEmpty_eq_nil.mpr hempty
      rw [hnone, SourceRun.records, List.map_eq_nil_iff] at hrecords
      rw [hrecords] at h
      simp at h

/-- A resumed source yields the whole file again, so only runs that are not resumed are right: a run
yields what it should from the checkpoint it is resumed at if that is none, and for batches only
when the source has not counted rows before. A sequence of runs shows what one run shows if those
that were stopped have yielded nothing. -/
theorem parquet_resumes_iff (source : ParquetSource ε T Row)
    (batches arrowBatches : List (List Row)) (hsame : arrowBatches.flatten = batches.flatten) :
    (∀ value, source.SavedAfter batches.flatten value →
      (source.RowsRight batches.flatten value
        ((source.resumedAt value).streamSyncBatches batches).yields ↔ value = none) ∧
      (source.RowsRight batches.flatten value
        ((source.resumedAt value).readRecords batches).yields ↔ value = none)) ∧
    (∀ number ≤ batches.flatten.length,
      (source.BatchesRight batches.flatten number
        ((source.resumedAt (source.settings.checkpointOf number)).streamBatches
          arrowBatches).yields ↔
        number = 0 ∧ (source.progress.lastNumber = 0 ∨ batches.flatten = []))) ∧
    ∀ stops,
      (ChainRight source.settings.toResumeSettings (fun record => [record])
        (fun value => ((source.resumedAt value).streamSyncBatches batches).yields) stops ↔
        ∀ stop ∈ stops, stop = 0 ∨ source.Unmapped batches.flatten) ∧
      (ChainRight source.settings.toResumeSettings (fun record => [record])
        (fun value => ((source.resumedAt value).readRecords batches).yields) stops ↔
        ∀ stop ∈ stops, stop = 0 ∨ source.Unmapped batches.flatten) ∧
      (ChainRight source.settings.toResumeSettings (fun rows => rows)
        (fun value => ((source.resumedAt value).streamBatches arrowBatches).yields) stops ↔
        ∀ stop ∈ stops, stop = 0 ∨ batches.flatten = []) := by
  have hsync : ∀ value, ((source.resumedAt value).streamSyncBatches batches).yields =
      source.settings.emitted
        (source.settings.numbered batches.flatten (source.settings.numberOf value)) :=
    fun value => (source.resumedAt value).yields_streamSyncBatches batches
  have hread : ∀ value, ((source.resumedAt value).readRecords batches).yields =
      source.settings.emitted
        (source.settings.numbered batches.flatten (source.settings.numberOf value)) :=
    fun value => (source.resumedAt value).yields_readRecords batches
  have hbatches : ∀ value, ((source.resumedAt value).streamBatches arrowBatches).records =
      arrowBatches.dropWhile List.isEmpty :=
    fun value => (source.resumedAt value).records_streamBatches arrowBatches
  have hrows : ∀ stops, ChainRight source.settings.toResumeSettings (fun record => [record])
      (fun value => source.settings.emitted
        (source.settings.numbered batches.flatten (source.settings.numberOf value))) stops ↔
      ∀ stop ∈ stops, stop = 0 ∨ source.Unmapped batches.flatten := by
    intro stops
    rw [chainRight_iff (fun value => source.settings.emitted_numbered _ _ 0)
      (source.settings.pairwise_emitted_numbered _ _) (by simp), List.map_eq_nil_iff]
    rfl
  have hpairwise : ((source.resumedAt none).streamBatches arrowBatches).yields.Pairwise
      fun first later => source.settings.numberOf first.2 ≤ source.settings.numberOf later.2 :=
    (pairwise_consume source.settings.toResumeSettings _ _).1
  refine ⟨fun value hsaved => ?_, fun number hnumber => ?_, fun stops => ⟨?_, ?_, ?_⟩⟩
  · rw [hsync, hread]
    exact ⟨source.rowsRight_iff hsaved, source.rowsRight_iff hsaved⟩
  · rw [← hsame] at hnumber ⊢
    exact source.batchesRight_iff arrowBatches hnumber
  · simp only [hsync]
    exact hrows stops
  · simp only [hread]
    exact hrows stops
  · rw [chainRight_iff hbatches hpairwise (by simpa using fun stop => take_dropWhile_isEmpty),
      dropWhile_isEmpty_eq_nil, hsame]

/-- A source that takes every number as a record. -/
def numbers : ParquetSource String ℕ ℕ where
  rowMapper row := .ok (some row)

/-- On a file of two rows, the run from the start is right and the run from the first row is not. -/
theorem parquet_resumes_iff_two :
    numbers.RowsRight [[5, 6]].flatten none
        ((numbers.resumedAt none).streamSyncBatches [[5, 6]]).yields ∧
      ¬ numbers.BatchesRight [[5, 6]].flatten 1
        ((numbers.resumedAt (numbers.settings.checkpointOf 1)).streamBatches [[5], [6]]).yields := by
  obtain ⟨hrows, hbatches, -⟩ := parquet_resumes_iff numbers [[5, 6]] [[5], [6]] rfl
  refine ⟨(hrows none (.inl rfl)).1.mpr rfl, fun h => ?_⟩
  obtain ⟨hone, -⟩ := (hbatches 1 (by decide)).mp h
  exact absurd hone (by decide)

/-- Resumed after the first of two rows, the source yields both again, numbered two and three. -/
theorem not_rowsRight_two :
    ¬ numbers.RowsRight [5, 6] (numbers.settings.checkpointOf 1)
      ((numbers.resumedAt (numbers.settings.checkpointOf 1)).streamSyncBatches [[5, 6]]).yields := by
  intro h
  have hcode : ((numbers.resumedAt (numbers.settings.checkpointOf 1)).streamSyncBatches
      [[5, 6]]).yields =
      [(5, some [("row_number", 2)]), (6, some [("row_number", 3)])] := by decide
  have hspec : numbers.settings.emitted (numbers.settings.unskipped
      (numbers.settings.numberOf (numbers.settings.checkpointOf 1)) [5, 6] 0) =
      [(6, some [("row_number", 2)])] := by decide
  exact absurd (hcode.symm.trans (h.trans hspec)) (by decide)

end ParquetSource

end AgoraEtl.File
