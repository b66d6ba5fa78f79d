import AgoraEtl.Sources.File.Text

/-!
# Sources with a limit

`LimitedSource` hands over the first records of another source and reports the checkpoint of that
source. A batch that reaches beyond the limit is cut, but the checkpoint is that of the whole batch:
a run that is resumed at it leaves out the records that were cut off. This is the only way in which
the checkpoint can lie past the last record that was handed over.
-/

namespace AgoraEtl.Limited

open Resumption

variable {α β κ : Type}

/-! ### The source -/

/-- `DataPlane`. -/
inductive DataPlane where
  | pythonRows
  | pythonBatches
  | arrowBatches
  deriving DecidableEq

/-- A source with checkpoints: what its runs from a checkpoint yield, with the checkpoints that it
reports, for each way to run it that it has. Each way can be resumed. -/
structure BatchSource (α κ : Type) where
  sourceName : String
  emittedPlane : DataPlane
  stream : κ → List (α × κ)
  streamSyncBatches : Option (κ → List (α × κ))
  streamBatches : κ → List (List α × κ)
  resumable_stream : Resumable stream
  resumable_streamSyncBatches : ∀ run, streamSyncBatches = some run → Resumable run
  resumable_streamBatches : Resumable streamBatches

/-- A CSV source is one; `stream` is `stream_sync_batches` in the event loop. -/
def ofCsv {ε T : Type} (source : File.CsvSource ε T) (emitBatches : Bool)
    (reader : List (List String)) : BatchSource T File.CheckpointValue where
  sourceName := "csv"
  emittedPlane := if emitBatches then .pythonBatches else .pythonRows
  stream value := ((source.resumedAt value).streamSyncBatches reader).yields
  streamSyncBatches := some fun value => ((source.resumedAt value).streamSyncBatches reader).yields
  streamBatches value := ((source.resumedAt value).streamBatches reader).yields
  resumable_stream := (source.paths_agree reader).resumable_streamSyncBatches
  resumable_streamSyncBatches := by
    rintro run ⟨⟩
    exact (source.paths_agree reader).resumable_streamSyncBatches
  resumable_streamBatches := (source.paths_agree reader).resumable_streamBatches

/-- `LimitedSource`. -/
structure LimitedSource (α κ : Type) where
  source : BatchSource α κ
  maxRecords : ℕ

namespace LimitedSource

/-- `LimitedSource.__init__`. -/
def init (source : BatchSource α κ) (maxRecords : Int) : Except String (LimitedSource α κ) :=
  if maxRecords < 0 then .error ("max_records must be >= 0, got " ++ toString maxRecords)
  else .ok ⟨source, maxRecords.toNat⟩

/-- `limit`. -/
def limit (limited : LimitedSource α κ) : Option Int → Except String (LimitedSource α κ)
  | none => .ok limited
  | some maxRecords =>
    if maxRecords < 0 then .error ("max_records must be >= 0, got " ++ toString maxRecords)
    else init limited.source (min limited.maxRecords maxRecords)

/-- The loop of `stream` and of `stream_sync_batches`: the next record is asked for while some
remain to be handed over. -/
def recordLoop : ℕ → List (α × κ) → List (α × κ)
  | 0, _ => []
  | _ + 1, [] => []
  | remaining + 1, record :: records => record :: recordLoop remaining records

/-- The loop of `stream_batches`. The checkpoint is that of the source, which has yielded the whole
batch. -/
def batchLoop : ℕ → List (List α × κ) → List (List α × κ)
  | _, [] => []
  | remaining, (batch, checkpoint) :: batches =>
    if remaining = 0 then []
    else if batch.length ≤ remaining then
      (batch, checkpoint) :: batchLoop (remaining - batch.length) batches
    else [(batch.take remaining, checkpoint)]

def stream (limited : LimitedSource α κ) (cursor : κ) : List (α × κ) :=
  recordLoop limited.maxRecords (limited.source.stream cursor)

def streamSyncBatches (limited : LimitedSource α κ) (cursor : κ) : Except String (List (α × κ)) :=
  match limited.source.streamSyncBatches with
  | none => .error ("Source '" ++ limited.source.sourceName ++
      "' does not expose stream_sync_batches().")
  | some run => .ok (recordLoop limited.maxRecords (run cursor))

def streamBatches (limited : LimitedSource α κ) (cursor : κ) : Except String (List (List α × κ)) :=
  if limited.source.emittedPlane = .pythonRows then
    .error ("Source '" ++ limited.source.sourceName ++ "' does not support batch emission; " ++
      "stream_batches() is unavailable on this limited wrapper.")
  else .ok (batchLoop limited.maxRecords (limited.source.streamBatches cursor))

end LimitedSource

/-! ### What is handed over -/

/-- The records in what was yielded. -/
def contents (content : α → List β) (yields : List (α × κ)) : List β :=
  yields.flatMap fun item => content item.1

@[simp]
theorem contents_nil (content : α → List β) : contents content ([] : List (α × κ)) = [] := rfl

@[simp]
theorem contents_cons (content : α → List β) (item : α) (checkpoint : κ) (yields : List (α × κ)) :
    contents content ((item, checkpoint) :: yields) = content item ++ contents content yields := rfl

@[simp]
theorem contents_append (content : α → List β) (front yields : List (α × κ)) :
    contents content (front ++ yields) = contents content front ++ contents content yields :=
  List.flatMap_append

theorem LimitedSource.recordLoop_eq_take (remaining : ℕ) (records : List (α × κ)) :
    recordLoop remaining records = records.take remaining := by
  induction remaining generalizing records with
  | zero => rfl
  | succ remaining ih =>
    cases records with
    | nil => rfl
    | cons record records => rw [recordLoop, ih, List.take_succ_cons]

theorem LimitedSource.contents_batchLoop (remaining : ℕ) (batches : List (List α × κ)) :
    contents (fun batch => batch) (batchLoop remaining batches) =
      (contents (fun batch => batch) batches).take remaining := by
  induction batches generalizing remaining with
  | nil => simp [batchLoop]
  | cons batch batches ih =>
    obtain ⟨batch, checkpoint⟩ := batch
    rw [batchLoop, contents_cons]
    split
    next hzero => simp [hzero]
    next hsome =>
      split
      next hwhole =>
        rw [contents_cons, ih, List.take_append, List.take_of_length_le hwhole]
      next hcut =>
        rw [contents_cons, contents_nil, List.append_nil,
          List.take_append_of_le_length (Nat.le_of_not_le hcut)]

/-! ### Where the checkpoint lies -/

/-- From any checkpoint that was reported, a run of the source yields at least the records that had
not been handed over. -/
def NotPast (content : α → List β) (run : κ → List (α × κ)) (cursor : κ)
    (yields : List (α × κ)) : Prop :=
  ∀ front item checkpoint rest, yields = front ++ (item, checkpoint) :: rest →
    (contents content (run cursor)).drop (contents content front ++ content item).length <:+
      contents content (run checkpoint)

/-- What a source yields itself is reported with checkpoints that do not lie past it. -/
theorem notPast_of_front {content : α → List β} {run : κ → List (α × κ)} (hrun : Resumable run)
    {cursor : κ} {yields later : List (α × κ)} (hyields : run cursor = yields ++ later) :
    NotPast content run cursor yields := by
  rintro front item checkpoint rest rfl
  rw [List.append_assoc, List.cons_append] at hyields
  have hrest := hrun cursor front item checkpoint _ hyields
  rw [hyields, hrest, contents_append, contents_cons, ← List.append_assoc, List.drop_left]

/-- The batches have `before` in front of a batch that has the limit strictly inside. -/
def CutAt (remaining : ℕ) (batches before : List (List α × κ)) (batch : List α) (checkpoint : κ)
    (later : List (List α × κ)) : Prop :=
  batches = before ++ (batch, checkpoint) :: later ∧
    (contents (fun batch => batch) before).length < remaining ∧
    remaining < (contents (fun batch => batch) before ++ batch).length

/-- The loop hands over whole batches, or it cuts one. -/
theorem LimitedSource.batchLoop_cases (remaining : ℕ) (batches : List (List α × κ)) :
    (∃ later, batches = batchLoop remaining batches ++ later) ∨
      ∃ before batch checkpoint later, CutAt remaining batches before batch checkpoint later := by
  induction batches generalizing remaining with
  | nil => exact .inl ⟨[], rfl⟩
  | cons batch batches ih =>
    obtain ⟨batch, checkpoint⟩ := batch
    rw [batchLoop]
    split
    next hzero => exact .inl ⟨_, (List.nil_append _).symm⟩
    next hsome =>
      split
      next hwhole =>
        rcases ih (remaining - batch.length) with ⟨later, hlater⟩ | ⟨before, cut, value, later, hcut⟩
        · left
          refine ⟨later, ?_⟩
          rw [List.cons_append, ← hlater]
        · right
          obtain ⟨hbatches, hbelow, habove⟩ := hcut
          refine ⟨(batch, checkpoint) :: before, cut, value, later, ?_, ?_, ?_⟩
          · rw [List.cons_append, ← hbatches]
          · rw [contents_cons, List.length_append]
            omega
          · rw [contents_cons, List.append_assoc, List.length_append]
            omega
      next hcut =>
        exact .inr ⟨[], batch, checkpoint, batches, rfl, Nat.pos_of_ne_zero hsome,
          by simpa using hcut⟩

theorem LimitedSource.batchLoop_of_cut {remaining : ℕ} {batches before later : List (List α × κ)}
    {batch : List α} {checkpoint : κ} (h : CutAt remaining batches before batch checkpoint later) :
    batchLoop remaining batches =
      before ++
        [(batch.take (remaining - (contents (fun batch => batch) before).length), checkpoint)] := by
  obtain ⟨rfl, hbelow, habove⟩ := h
  induction before generalizing remaining with
  | nil =>
    rw [contents_nil, List.nil_append] at habove
    have hsome : remaining ≠ 0 := Nat.ne_of_gt hbelow
    rw [List.nil_append, batchLoop, if_neg hsome, if_neg (Nat.not_le_of_gt habove)]
    rfl
  | cons first before ih =>
    obtain ⟨first, value⟩ := first
    rw [contents_cons, List.length_append] at hbelow
    rw [contents_cons, List.append_assoc, List.length_append] at habove
    rw [List.cons_append, batchLoop, if_neg (by omega), if_pos (by omega),
      ih (by omega) (by omega), contents_cons, List.length_append, Nat.sub_sub, List.cons_append]

theorem notPast_batchLoop_iff {run : κ → List (List α × κ)} (hrun : Resumable run) (cursor : κ)
    (remaining : ℕ) :
    NotPast (fun batch => batch) run cursor (LimitedSource.batchLoop remaining (run cursor)) ↔
      ∀ before batch checkpoint later, ¬ CutAt remaining (run cursor) before batch checkpoint
        later := by
  constructor
  · intro hpast before batch checkpoint later hcut
    have hsuffix := hpast before _ checkpoint [] (LimitedSource.batchLoop_of_cut hcut)
    obtain ⟨hbatches, hbelow, habove⟩ := hcut
    -- the cut batch is counted up to the limit, and is gone from the resumed run
    rw [hrun cursor before batch checkpoint later hbatches, hbatches] at hsuffix
    have hlength := hsuffix.length_le
    simp only [contents_append, contents_cons, List.length_drop, List.length_append,
      List.length_take] at hlength habove
    omega
  · intro hcuts
    rcases LimitedSource.batchLoop_cases remaining (run cursor) with
      ⟨later, hlater⟩ | ⟨before, batch, checkpoint, later, hcut⟩
    · exact notPast_of_front hrun hlater
    · exact absurd hcut (hcuts before batch checkpoint later)

namespace LimitedSource

/-- What was yielded are the first records of what the source yields, and no checkpoint lies past
what was handed over with it. -/
def Right (limited : LimitedSource α κ) (content : β → List α) (run : κ → List (β × κ)) (cursor : κ)
    (yields : List (β × κ)) : Prop :=
  contents content yields = (contents content (run cursor)).take limited.maxRecords ∧
    NotPast content run cursor yields

/-- A source with a limit hands over the first records on every path, with checkpoints that do not
lie past them, unless the limit is strictly inside a batch. -/
theorem right_iff (limited : LimitedSource α κ)
    (hplane : limited.source.emittedPlane ≠ .pythonRows) (cursor : κ) :
    (limited.Right (fun record => [record]) limited.source.stream cursor (limited.stream cursor) ∧
      (∀ run, limited.source.streamSyncBatches = some run →
        ∃ yields, limited.streamSyncBatches cursor = .ok yields ∧
          limited.Right (fun record => [record]) run cursor yields) ∧
      ∃ yields, limited.streamBatches cursor = .ok yields ∧
        limited.Right (fun batch => batch) limited.source.streamBatches cursor yields) ↔
    ∀ before batch checkpoint later,
      ¬ CutAt limited.maxRecords (limited.source.streamBatches cursor) before batch checkpoint
        later := by
  have hrecords : ∀ run : κ → List (α × κ), Resumable run →
      limited.Right (fun record => [record]) run cursor
        (recordLoop limited.maxRecords (run cursor)) := by
    intro run hrun
    rw [recordLoop_eq_take]
    refine ⟨?_, notPast_of_front hrun (List.take_append_drop _ _).symm⟩
    simp only [contents, ← List.map_eq_flatMap, List.map_take]
  have hbatches : limited.streamBatches cursor =
      .ok (batchLoop limited.maxRecords (limited.source.streamBatches cursor)) := if_neg hplane
  rw [← notPast_batchLoop_iff limited.source.resumable_streamBatches]
  constructor
  · rintro ⟨-, -, yields, hyields, -, hpast⟩
    rw [hbatches] at hyields
    rwa [Except.ok.inj hyields]
  · intro hpast
    refine ⟨hrecords _ limited.source.resumable_stream, fun run hrun => ?_, _, hbatches,
      contents_batchLoop _ _, hpast⟩
    refine ⟨recordLoop limited.maxRecords (run cursor), ?_,
      hrecords run (limited.source.resumable_streamSyncBatches run hrun)⟩
    rw [streamSyncBatches, hrun]

/-- Three identifiers of a CSV file, in batches of two. -/
def identifiers : BatchSource File.Cell File.CheckpointValue :=
  ofCsv (ε := String)
    { rowMapper := fun row => .ok (row.get? (some "id")), emitBatchSize := 2 } true
    [["id"], ["1"], ["2"], ["3"]]

theorem streamBatches_identifiers :
    identifiers.streamBatches none =
      [([.text "1", .text "2"], some [("row_number", 2)]), ([.text "3"], some [("row_number", 3)])] := by
  decide

/-- Two records are the first batch. -/
theorem right_identifiers_two :
    ∃ yields, (⟨identifiers, 2⟩ : LimitedSource _ _).streamBatches none = .ok yields ∧
      (⟨identifiers, 2⟩ : LimitedSource _ _).Right (fun batch => batch) identifiers.streamBatches none
        yields := by
  refine ((right_iff ⟨identifiers, 2⟩ (by decide) none).mpr ?_).2.2
  rintro before batch checkpoint later ⟨hbatches, hbelow, habove⟩
  have hbatches' := streamBatches_identifiers.symm.trans hbatches
  rcases before with _ | ⟨first, _ | ⟨second, before⟩⟩
  · rw [List.nil_append, List.cons_eq_cons] at hbatches'
    obtain ⟨rfl, -⟩ := Prod.mk.inj hbatches'.1
    exact absurd habove (by decide)
  · rw [List.cons_append, List.cons_eq_cons] at hbatches'
    rw [← hbatches'.1] at hbelow
    exact absurd hbelow (by decide)
  · simp at hbatches'

/-- One record is half a batch, and resuming at its checkpoint leaves out the other half. -/
theorem not_notPast_identifiers_one :
    ∃ yields, (⟨identifiers, 1⟩ : LimitedSource _ _).streamBatches none = .ok yields ∧
      ¬ NotPast (fun batch => batch) identifiers.streamBatches none yields := by
  refine ⟨[([.text "1"], some [("row_number", 2)])], by decide, fun hpast => ?_⟩
  have hlength := (hpast [] _ _ [] rfl).length_le
  have hleft : ((contents (fun batch => batch) (identifiers.streamBatches none)).drop
      (contents (fun batch => batch) ([] : List (List File.Cell × File.CheckpointValue)) ++
        [File.Cell.text "1"]).length).length = 2 := by decide
  have hresumed : (contents (fun batch => batch)
      (identifiers.streamBatches (some [("row_number", 2)]))).length = 1 := by decide
  rw [hleft, hresumed] at hlength
  exact absurd hlength (by decide)

end LimitedSource

end AgoraEtl.Limited
