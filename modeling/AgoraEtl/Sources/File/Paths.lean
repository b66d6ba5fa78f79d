import AgoraEtl.Sources.File.Rows

/-!
# The three paths over the rows of a file

The loops of `Rows` handle the rows that are not skipped one after the other; they differ in what
they hand over together. Each is compared with `handleBatch` over all of these rows, and from that
comes when the paths agree and that each can be resumed at its own checkpoints.
-/

namespace AgoraEtl.File

open Resumption

variable {ε T Row Item Raw : Type}

namespace RowSettings

variable (settings : RowSettings ε T Row Item Raw)

/-! ### Records one by one -/

theorem syncLoop_eq (resume : ℕ) (rows : List Row) (number : ℕ) (progress : Progress) :
    settings.syncLoop resume rows number progress =
      settings.handleBatch (settings.unskipped resume rows number) progress := by
  induction rows generalizing number progress with
  | nil => rfl
  | cons row rows ih =>
    rw [syncLoop]
    split
    next hskip =>
      rw [settings.unskipped_cons_of_le row rows hskip]
      exact ih (number + 1) progress
    next htake =>
      rw [settings.unskipped_cons_of_lt row rows htake, handleBatch]
      cases settings.takeRow (number + 1) (settings.read row) progress with
      | pass next => exact ih (number + 1) next
      | emit record next =>
        dsimp only
        rw [ih (number + 1) next]
      | raise error next => rfl

theorem handleBatch_append (items later : List (ℕ × Item)) (progress : Progress) :
    settings.handleBatch (items ++ later) progress =
      (settings.handleBatch items progress).andThen (settings.handleBatch later) := by
  induction items generalizing progress with
  | nil => rfl
  | cons item items ih =>
    obtain ⟨number, item⟩ := item
    rw [List.cons_append, handleBatch, handleBatch]
    cases settings.takeRow number item progress with
    | pass next => exact ih next
    | emit record next =>
      dsimp only
      rw [SourceRun.andThen_yielding, ih next]
    | raise error next => rfl

/-! ### Rows that are read ahead -/

/-- What `_read_batch` takes of the rows: the next ones that are not skipped, none only if there are
no more. -/
theorem readBatch_spec (resume batchSize : ℕ) (rows : List Row) (number : ℕ)
    (batch : List (ℕ × Item)) :
    ∃ items, (settings.readBatch resume batchSize rows number batch).1 = batch ++ items ∧
      settings.unskipped resume rows number =
        items ++ settings.unskipped resume
          (settings.readBatch resume batchSize rows number batch).2.1
          (settings.readBatch resume batchSize rows number batch).2.2 ∧
      (settings.readBatch resume batchSize rows number batch).2.1.length ≤ rows.length ∧
      ((settings.readBatch resume batchSize rows number batch).2.1.length < rows.length ∨
        rows = []) ∧
      (items = [] → (settings.readBatch resume batchSize rows number batch).2.1 = []) := by
  induction rows generalizing number batch with
  | nil => exact ⟨[], by simp [readBatch], by simp [readBatch], by simp [readBatch], .inr rfl,
      fun _ => rfl⟩
  | cons row rows ih =>
    have hread : ∀ batch', ∃ items,
        (settings.readBatch resume batchSize rows (number + 1) batch').1 = batch' ++ items ∧
        settings.unskipped resume rows (number + 1) =
          items ++ settings.unskipped resume
            (settings.readBatch resume batchSize rows (number + 1) batch').2.1
            (settings.readBatch resume batchSize rows (number + 1) batch').2.2 ∧
        (settings.readBatch resume batchSize rows (number + 1) batch').2.1.length ≤
          (row :: rows).length ∧
        ((settings.readBatch resume batchSize rows (number + 1) batch').2.1.length <
          (row :: rows).length ∨ row :: rows = []) ∧
        (items = [] →
          (settings.readBatch resume batchSize rows (number + 1) batch').2.1 = []) := by
      intro batch'
      obtain ⟨items, hbatch, hitems, hlength, -, hnone⟩ := ih (number + 1) batch'
      exact ⟨items, hbatch, hitems, Nat.le_succ_of_le hlength, .inl (Nat.lt_succ_of_le hlength),
        hnone⟩
    rw [readBatch]
    split
    next hskip =>
      rw [settings.unskipped_cons_of_le row rows hskip]
      exact hread batch
    next htake =>
      rw [settings.unskipped_cons_of_lt row rows htake]
      have hgo : ∀ {rest : List (ℕ × Item) × List Row × ℕ},
          rest = settings.readBatch resume batchSize rows (number + 1)
            (batch ++ [(number + 1, settings.read row)]) →
          ∃ items, rest.1 = batch ++ items ∧
            (number + 1, settings.read row) :: settings.unskipped resume rows (number + 1) =
              items ++ settings.unskipped resume rest.2.1 rest.2.2 ∧
            rest.2.1.length ≤ (row :: rows).length ∧
            (rest.2.1.length < (row :: rows).length ∨ row :: rows = []) ∧
            (items = [] → rest.2.1 = []) := by
        rintro _ rfl
        obtain ⟨items, hbatch, hitems, hlength, hless, -⟩ :=
          hread (batch ++ [(number + 1, settings.read row)])
        refine ⟨(number + 1, settings.read row) :: items, ?_, ?_, hlength, hless, nofun⟩
        · rw [hbatch, List.append_assoc, List.singleton_append]
        · rw [List.cons_append, ← hitems]
      split
      next hblank => exact hgo rfl
      next hrow =>
        split
        next hfull =>
          exact ⟨[(number + 1, settings.read row)], rfl, rfl, Nat.le_succ _,
            .inl (Nat.lt_succ_self _), nofun⟩
        next hroom => exact hgo rfl

/-- A batch that has rows leaves fewer. -/
theorem readBatch_length_lt {resume batchSize : ℕ} {rows : List Row} {number : ℕ}
    (h : (settings.readBatch resume batchSize rows number []).1.isEmpty = false) :
    (settings.readBatch resume batchSize rows number []).2.1.length < rows.length := by
  obtain ⟨items, hbatch, -, -, hless, -⟩ := settings.readBatch_spec resume batchSize rows number []
  rcases hless with hless | rfl
  · exact hless
  · simp [readBatch] at h

/-- The loop of `read_records`: it ends at a batch without rows. -/
def readLoop (resume batchSize : ℕ) (rows : List Row) (number : ℕ) (progress : Progress) :
    SourceRun T ε Raw :=
  if _h : (settings.readBatch resume batchSize rows number []).1.isEmpty then .finish progress
  else
    (settings.handleBatch (settings.readBatch resume batchSize rows number []).1 progress).andThen
      (readLoop resume batchSize (settings.readBatch resume batchSize rows number []).2.1
        (settings.readBatch resume batchSize rows number []).2.2)
termination_by rows.length
decreasing_by exact settings.readBatch_length_lt (by simpa using _h)

theorem readLoop_eq (resume batchSize : ℕ) (rows : List Row) (number : ℕ) (progress : Progress) :
    settings.readLoop resume batchSize rows number progress =
      settings.handleBatch (settings.unskipped resume rows number) progress := by
  induction rows, number, progress using readLoop.induct settings resume batchSize with
  | case1 rows number progress hnone =>
    obtain ⟨items, hbatch, hitems, -, -, hlast⟩ :=
      settings.readBatch_spec resume batchSize rows number []
    have hempty : items = [] := by
      rw [hbatch, List.nil_append] at hnone
      exact List.isEmpty_iff.mp hnone
    rw [readLoop, dif_pos hnone, hitems, hempty, hlast hempty]
    rfl
  | case2 rows number progress hsome ih =>
    obtain ⟨items, hbatch, hitems, -⟩ := settings.readBatch_spec resume batchSize rows number []
    rw [readLoop, dif_neg hsome, hitems, handleBatch_append]
    rw [List.nil_append] at hbatch
    rw [← hbatch]
    exact congrArg _ (funext fun progress => ih progress)

/-! ### Batches of records -/

/-- The loop of `stream_batches` over the rows that are not skipped. -/
def batchItems (emitBatchSize : ℕ) :
    List (ℕ × Item) → List T → Progress → SourceRun (List T) ε Raw
  | [], batch, progress =>
    if batch.isEmpty then .finish progress
    else SourceRun.yielding batch (settings.checkpointOf progress.lastNumber) (.finish progress)
  | (number, item) :: items, batch, progress =>
    match settings.takeRow number item progress with
    | .pass progress => batchItems emitBatchSize items batch progress
    | .emit record progress =>
      if emitBatchSize ≤ (batch ++ [record]).length then
        (batchItems emitBatchSize items [] progress).yielding (batch ++ [record])
          (settings.checkpointOf progress.lastNumber)
      else batchItems emitBatchSize items (batch ++ [record]) progress
    | .raise error progress => .raise error progress

theorem batchLoop_eq (resume emitBatchSize : ℕ) (rows : List Row) (number : ℕ) (batch : List T)
    (progress : Progress) :
    settings.batchLoop resume emitBatchSize rows number batch progress =
      settings.batchItems emitBatchSize (settings.unskipped resume rows number) batch progress := by
  induction rows generalizing number batch progress with
  | nil => rfl
  | cons row rows ih =>
    rw [batchLoop]
    split
    next hskip =>
      rw [settings.unskipped_cons_of_le row rows hskip]
      exact ih (number + 1) batch progress
    next htake =>
      rw [settings.unskipped_cons_of_lt row rows htake, batchItems]
      cases settings.takeRow (number + 1) (settings.read row) progress with
      | pass next => exact ih (number + 1) batch next
      | emit record next =>
        dsimp only
        rw [ih (number + 1) [] next, ih (number + 1) (batch ++ [record]) next]
      | raise error next => rfl

/-- The batches are counted and end as the records do. -/
theorem batchItems_end (emitBatchSize : ℕ) (items : List (ℕ × Item)) (batch : List T)
    (progress : Progress) :
    (settings.batchItems emitBatchSize items batch progress).progress =
        (settings.handleBatch items progress).progress ∧
      (settings.batchItems emitBatchSize items batch progress).ended =
        (settings.handleBatch items progress).ended := by
  induction items generalizing batch progress with
  | nil =>
    rw [batchItems, handleBatch]
    split <;> exact ⟨rfl, rfl⟩
  | cons item items ih =>
    obtain ⟨number, item⟩ := item
    rw [batchItems, handleBatch]
    cases settings.takeRow number item progress with
    | pass next => exact ih batch next
    | emit record next =>
      dsimp only
      split
      · exact ih [] next
      · exact ih (batch ++ [record]) next
    | raise error next => exact ⟨rfl, rfl⟩

/-- Without an error the batches hold all records, in order. -/
theorem flatten_batchItems (emitBatchSize : ℕ) (items : List (ℕ × Item)) (batch : List T)
    (progress : Progress) (hend : (settings.handleBatch items progress).ended = .finished) :
    (settings.batchItems emitBatchSize items batch progress).records.flatten =
      batch ++ (settings.handleBatch items progress).records := by
  induction items generalizing batch progress with
  | nil =>
    rw [batchItems, handleBatch]
    cases batch with
    | nil => rfl
    | cons record batch => simp [SourceRun.records, SourceRun.yielding, SourceRun.finish]
  | cons item items ih =>
    obtain ⟨number, item⟩ := item
    rw [handleBatch] at hend ⊢
    rw [batchItems]
    revert hend
    cases settings.takeRow number item progress with
    | pass next => exact ih batch next
    | emit record next =>
      intro hend
      have hend' : (settings.handleBatch items next).ended = .finished := hend
      dsimp only
      split
      · have h := ih [] next hend'
        simp only [SourceRun.records, SourceRun.yielding, List.map_cons, List.flatten_cons,
          List.nil_append] at h ⊢
        rw [h, List.append_assoc, List.singleton_append]
      · have h := ih (batch ++ [record]) next hend'
        simp only [SourceRun.records, SourceRun.yielding, List.map_cons] at h ⊢
        rw [h, List.append_assoc, List.singleton_append]
    | raise error next => rintro ⟨⟩

/-- A batch that is handed over before an error is reported with the checkpoint of its last record. -/
theorem mem_yields_batchItems (emitBatchSize : ℕ) (items : List (ℕ × Item)) (batch : List T)
    (progress : Progress) {error : SourceRecordError ε Raw}
    (hend : (settings.handleBatch items progress).ended = .raised error)
    {full : List T} {value : CheckpointValue}
    (h : (full, value) ∈ (settings.batchItems emitBatchSize items batch progress).yields) :
    ∃ record, full.getLast? = some record ∧
      (record, value) ∈ (settings.handleBatch items progress).yields := by
  induction items generalizing batch progress with
  | nil => exact absurd hend nofun
  | cons item items ih =>
    obtain ⟨number, item⟩ := item
    rw [handleBatch] at hend ⊢
    rw [batchItems] at h
    revert hend h
    cases settings.takeRow number item progress with
    | pass next => exact fun hend h => ih batch next hend h
    | emit record next =>
      intro hend h
      have hlater : ∀ batch, (full, value) ∈
          (settings.batchItems emitBatchSize items batch next).yields →
          ∃ record', full.getLast? = some record' ∧ (record', value) ∈
            ((settings.handleBatch items next).yielding record
              (settings.checkpointOf next.lastNumber)).yields := by
        intro batch h
        obtain ⟨record', hlast, hmem⟩ := ih batch next hend h
        exact ⟨record', hlast, List.mem_cons_of_mem _ hmem⟩
      dsimp only at h
      split at h
      · rcases List.mem_cons.mp h with hfull | h
        · obtain ⟨rfl, rfl⟩ := Prod.mk.inj hfull
          exact ⟨record, List.getLast?_concat, List.mem_cons_self⟩
        · exact hlater [] h
      · exact hlater (batch ++ [record]) h
    | raise error next => exact fun _ h => absurd h List.not_mem_nil

/-- The batches of numbered rows with their checkpoints, when the last row before was `last`. -/
def batched (emitBatchSize : ℕ) : ℕ → List (ℕ × Item) → List T → List (List T × CheckpointValue)
  | last, [], batch => if batch.isEmpty then [] else [(batch, settings.checkpointOf last)]
  | _, (number, item) :: items, batch =>
    match settings.takeRow number item {} with
    | .pass _ => batched emitBatchSize number items batch
    | .emit record _ =>
      if emitBatchSize ≤ (batch ++ [record]).length then
        (batch ++ [record], settings.checkpointOf number) :: batched emitBatchSize number items []
      else batched emitBatchSize number items (batch ++ [record])
    | .raise _ _ => []

/-- Which step a row is does not depend on the counters. -/
theorem batched_cons (emitBatchSize last number : ℕ) (item : Item) (items : List (ℕ × Item))
    (batch : List T) (progress : Progress) :
    settings.batched emitBatchSize last ((number, item) :: items) batch =
      match settings.takeRow number item progress with
      | .pass _ => settings.batched emitBatchSize number items batch
      | .emit record _ =>
        if emitBatchSize ≤ (batch ++ [record]).length then
          (batch ++ [record], settings.checkpointOf number) ::
            settings.batched emitBatchSize number items []
        else settings.batched emitBatchSize number items (batch ++ [record])
      | .raise _ _ => [] := by
  rw [batched]
  unfold takeRow
  cases settings.handle item with
  | blank => rfl
  | record record => rfl
  | dropped => rfl
  | failed exc raw => cases settings.onRecordError <;> rfl

theorem yields_batchItems (emitBatchSize : ℕ) (items : List (ℕ × Item)) (batch : List T)
    (progress : Progress) :
    (settings.batchItems emitBatchSize items batch progress).yields =
      settings.batched emitBatchSize progress.lastNumber items batch := by
  induction items generalizing batch progress with
  | nil =>
    rw [batchItems, batched]
    split <;> rfl
  | cons item items ih =>
    obtain ⟨number, item⟩ := item
    rw [batchItems, settings.batched_cons emitBatchSize _ number item items batch progress]
    obtain ⟨hpass, hemit, -⟩ := settings.lastNumber_takeRow number item progress
    split
    next next hstep =>
      have h := ih batch next
      rwa [hpass next hstep] at h
    next record next hstep =>
      have hnext := hemit record next hstep
      have h := ih [] next
      have h' := ih (batch ++ [record]) next
      rw [hnext] at h h' ⊢
      split
      · exact congrArg _ h
      · exact h'
    next error next hstep => rfl

/-- Before any batch is begun, only the rows matter. -/
theorem batched_last (emitBatchSize last last' : ℕ) (items : List (ℕ × Item)) :
    settings.batched emitBatchSize last items [] =
      settings.batched emitBatchSize last' items [] := by
  cases items with
  | nil => rfl
  | cons item items => rfl

/-- After any batch come the batches of the rows with greater numbers. -/
theorem batched_split {emitBatchSize last : ℕ} {items : List (ℕ × Item)} {batch : List T}
    (hlast : ∀ item ∈ items, last < item.1)
    (hsorted : items.Pairwise fun item later => item.1 < later.1)
    {front rest : List (List T × CheckpointValue)} {full : List T} {value : CheckpointValue}
    (h : settings.batched emitBatchSize last items batch = front ++ (full, value) :: rest) :
    ∃ number, last ≤ number ∧ value = settings.checkpointOf number ∧
      settings.batched emitBatchSize number (items.filter fun item => number < item.1) [] =
        rest := by
  induction items generalizing last batch front with
  | nil =>
    rw [batched] at h
    split at h
    · simp at h
    · have hfront : front = [] := by
        cases front with
        | nil => rfl
        | cons first front => simp at h
      subst hfront
      rw [List.nil_append, List.cons_eq_cons] at h
      exact ⟨last, le_rfl, (Prod.mk.inj h.1).2.symm, h.2⟩
  | cons item items ih =>
    obtain ⟨number, item⟩ := item
    obtain ⟨hbelow, hsorted⟩ := List.pairwise_cons.mp hsorted
    have hnumber : last < number := hlast (number, item) List.mem_cons_self
    have hlater : ∀ {batch front},
        settings.batched emitBatchSize number items batch = front ++ (full, value) :: rest →
        ∃ number', last ≤ number' ∧ value = settings.checkpointOf number' ∧
          settings.batched emitBatchSize number'
            (((number, item) :: items).filter fun item => number' < item.1) [] = rest := by
      intro batch front h
      obtain ⟨number', hle, hvalue, hrest⟩ := ih hbelow hsorted h
      refine ⟨number', hnumber.le.trans hle, hvalue, ?_⟩
      rw [List.filter_cons_of_neg (by simpa using hle)]
      exact hrest
    rw [settings.batched_cons emitBatchSize last number item items batch {}] at h
    split at h
    next next hstep => exact hlater h
    next record next hstep =>
      split at h
      next hfull =>
        cases front with
        | cons first front =>
          rw [List.cons_append, List.cons_eq_cons] at h
          exact hlater h.2
        | nil =>
          rw [List.nil_append, List.cons_eq_cons] at h
          obtain ⟨hhead, hrest⟩ := h
          refine ⟨number, hnumber.le, (Prod.mk.inj hhead).2.symm, ?_⟩
          rw [List.filter_cons_of_neg (by simp), List.filter_eq_self.mpr ?_]
          · exact hrest
          · intro later hmem
            simpa using hbelow later hmem
      next hroom => exact hlater h
    next error next hstep => simp at h

/-! ### Resuming -/

/-- Any loop that yields the records of the rows that are not skipped can be resumed. -/
theorem resumable_emitted (rows : List Row) :
    Resumable fun value =>
      settings.emitted (settings.unskipped (settings.numberOf value) rows 0) := by
  intro value front record checkpoint rest h
  have hsorted := settings.pairwise_unskipped (settings.numberOf value) rows 0
  obtain ⟨number, ⟨item, hitem, hnumber⟩, hvalue, hrest⟩ := settings.emitted_split hsorted h
  have hlt : settings.numberOf value < number := by
    have hkept := (List.mem_filter.mp hitem).2
    rw [hnumber] at hkept
    exact of_decide_eq_true hkept
  rw [settings.filter_unskipped hlt.le] at hrest
  subst hvalue
  dsimp only
  rw [settings.numberOf_checkpointOf]
  exact hrest

theorem resumable_batched (emitBatchSize : ℕ) (last : ℕ) (rows : List Row) :
    Resumable fun value => settings.batched emitBatchSize last
      (settings.unskipped (settings.numberOf value) rows 0) [] := by
  intro value front full checkpoint rest h
  have hsorted := settings.pairwise_unskipped (settings.numberOf value) rows 0
  have hlast : ∀ item ∈ settings.unskipped (settings.numberOf value) rows 0,
      settings.numberOf value < item.1 := fun item hitem =>
    of_decide_eq_true (List.mem_filter.mp hitem).2
  dsimp only at h
  rw [settings.batched_last emitBatchSize last (settings.numberOf value)] at h
  obtain ⟨number, hle, hvalue, hrest⟩ := settings.batched_split hlast hsorted h
  rw [settings.filter_unskipped hle, settings.batched_last emitBatchSize number last] at hrest
  subst hvalue
  dsimp only
  rw [settings.numberOf_checkpointOf]
  exact hrest

/-! ### Agreement -/

/-- The row that raises is the last one that was reached. -/
theorem lastNumber_of_raised {items : List (ℕ × Item)} {progress : Progress}
    {error : SourceRecordError ε Raw}
    (h : (settings.handleBatch items progress).ended = .raised error) :
    error.checkpoint =
      settings.checkpointOf (settings.handleBatch items progress).progress.lastNumber := by
  induction items generalizing progress with
  | nil => exact absurd h nofun
  | cons item items ih =>
    obtain ⟨number, item⟩ := item
    obtain ⟨-, -, hraise⟩ := settings.lastNumber_takeRow number item progress
    rw [handleBatch] at h ⊢
    revert h hraise
    cases settings.takeRow number item progress with
    | pass next => exact fun h _ => ih h
    | emit record next => exact fun h _ => ih h
    | raise error' next =>
      rintro ⟨⟩ hraise
      obtain ⟨hlast, hcheckpoint⟩ := hraise error next rfl
      exact hcheckpoint.trans (congrArg settings.checkpointOf hlast.symm)

end RowSettings

/-- The three ways to run a source on a file, each from the checkpoint it is resumed at. -/
structure Paths (ε T Raw : Type) where
  streamSyncBatches : CheckpointValue → SourceRun T ε Raw
  streamBatches : CheckpointValue → SourceRun (List T) ε Raw
  readRecords : CheckpointValue → SourceRun T ε Raw

/-- Every path can be resumed at its checkpoints, and the paths agree: on the records and the counts
if no row raises, else on the row that raises, which is the last that they have reached. Batches that
were handed over before that were reported with the checkpoints of their last records. -/
structure Paths.Agree (settings : ResumeSettings) (paths : Paths ε T Raw) : Prop where
  resumable_streamSyncBatches : Resumable fun value => (paths.streamSyncBatches value).yields
  resumable_streamBatches : Resumable fun value => (paths.streamBatches value).yields
  resumable_readRecords : Resumable fun value => (paths.readRecords value).yields
  progress_streamBatches : ∀ value,
    (paths.streamBatches value).progress = (paths.streamSyncBatches value).progress
  progress_readRecords : ∀ value,
    (paths.readRecords value).progress = (paths.streamSyncBatches value).progress
  ended_streamBatches : ∀ value,
    (paths.streamBatches value).ended = (paths.streamSyncBatches value).ended
  ended_readRecords : ∀ value,
    (paths.readRecords value).ended = (paths.streamSyncBatches value).ended
  records_readRecords : ∀ value,
    (paths.readRecords value).records = (paths.streamSyncBatches value).records
  records_streamBatches : ∀ value, (paths.streamSyncBatches value).ended = .finished →
    (paths.streamBatches value).records.flatten = (paths.streamSyncBatches value).records
  checkpoint_of_raised : ∀ value error, (paths.streamSyncBatches value).ended = .raised error →
    error.checkpoint =
      settings.checkpointOf (paths.streamSyncBatches value).progress.lastNumber
  checkpoint_of_batch : ∀ value error, (paths.streamSyncBatches value).ended = .raised error →
    ∀ batch checkpoint, (batch, checkpoint) ∈ (paths.streamBatches value).yields →
      ∃ record, batch.getLast? = some record ∧
        (record, checkpoint) ∈ (paths.streamSyncBatches value).yields

/-- The loops over the rows of a file, from the first row on. -/
def RowSettings.paths (settings : RowSettings ε T Row Item Raw) (emitBatchSize batchSize : ℕ)
    (rows : List Row) (progress : Progress) : Paths ε T Raw where
  streamSyncBatches value := settings.syncLoop (settings.numberOf value) rows 0 progress
  streamBatches value :=
    settings.batchLoop (settings.numberOf value) emitBatchSize rows 0 [] progress
  readRecords value := settings.readLoop (settings.numberOf value) batchSize rows 0 progress

theorem RowSettings.paths_agree (settings : RowSettings ε T Row Item Raw)
    (emitBatchSize batchSize : ℕ) (rows : List Row) (progress : Progress) :
    (settings.paths emitBatchSize batchSize rows progress).Agree settings.toResumeSettings := by
  have hsync : ∀ value, (settings.paths emitBatchSize batchSize rows progress).streamSyncBatches
      value = settings.handleBatch (settings.unskipped (settings.numberOf value) rows 0) progress :=
    fun value => settings.syncLoop_eq _ rows 0 progress
  have hread : ∀ value, (settings.paths emitBatchSize batchSize rows progress).readRecords value =
      (settings.paths emitBatchSize batchSize rows progress).streamSyncBatches value :=
    fun value => (settings.readLoop_eq _ batchSize rows 0 progress).trans (hsync value).symm
  have hbatches : ∀ value, (settings.paths emitBatchSize batchSize rows progress).streamBatches
      value = settings.batchItems emitBatchSize
        (settings.unskipped (settings.numberOf value) rows 0) [] progress :=
    fun value => settings.batchLoop_eq _ emitBatchSize rows 0 [] progress
  have hresume : Resumable fun value =>
      ((settings.paths emitBatchSize batchSize rows progress).streamSyncBatches value).yields := by
    have h := settings.resumable_emitted rows
    simp only [← settings.yields_handleBatch _ progress, ← hsync] at h
    exact h
  refine ⟨hresume, ?_, ?_, ?_, ?_, ?_, ?_, ?_, ?_, ?_, ?_⟩
  · have h := settings.resumable_batched emitBatchSize progress.lastNumber rows
    simp only [← settings.yields_batchItems emitBatchSize _ [] progress, ← hbatches] at h
    exact h
  · simpa only [hread] using hresume
  · intro value
    rw [hbatches, hsync]
    exact (settings.batchItems_end emitBatchSize _ [] progress).1
  · intro value
    rw [hread]
  · intro value
    rw [hbatches, hsync]
    exact (settings.batchItems_end emitBatchSize _ [] progress).2
  · intro value
    rw [hread]
  · intro value
    rw [hread]
  · intro value
    rw [hbatches, hsync]
    exact settings.flatten_batchItems emitBatchSize _ [] progress
  · intro value error
    rw [hsync]
    exact settings.lastNumber_of_raised
  · intro value error
    rw [hbatches, hsync]
    exact fun hend batch checkpoint =>
      settings.mem_yields_batchItems emitBatchSize _ [] progress hend

end AgoraEtl.File
