import AgoraEtl.Effect.Runs
import Mathlib.Data.List.Sort

/-!
# The SQLite dead-letter store

`SQLiteDLQSink` and `SQLiteDLQSource` over one table of dead-lettered records. The table is a list
of rows with the identifiers that `AUTOINCREMENT` hands out; a record read from it carries the
identifier of its row, which later replays and acknowledgements use to find the row again.

Against it stands what the store is for: after a history of calls the outstanding records are the
written ones that nobody acknowledged, each with as many further attempts as it was replayed.
-/

namespace AgoraEtl.Dlq

/-! ### Records and rows -/

section Records

variable {V T : Type}

/-- The text formats of the stored columns: `json` for payloads, where `none` is Python's `None`,
and the ISO format for times. A text that is not JSON is returned as it stands. -/
structure RowCodec (V T : Type) where
  dumps : Option V → String
  loads : String → Option (Option V)
  text : String → V
  isoformat : T → String
  fromisoformat : String → Option T
  loads_dumps : ∀ payload, loads (dumps payload) = some payload
  fromisoformat_isoformat : ∀ time, fromisoformat (isoformat time) = some time

/-- Serialized dead-letter payload for a failed record. -/
structure DLQRecord (V T : Type) where
  pipelineId : String
  runId : String
  stage : String
  errorType : String
  errorMessage : String
  record : Option V
  source : Option String
  checkpoint : Option V
  details : Option V
  middleware : Option String
  sink : Option String
  createdAt : T
  attempt : Int
  maxAttempts : Option Int
  originalRecord : Option V
  processedRecord : Option V
  storageId : Option ℕ
  deriving DecidableEq

/-- The columns that an insertion fills. -/
structure Columns where
  pipelineId : String
  runId : String
  stage : String
  errorType : String
  errorMessage : String
  record : Option String
  originalRecord : Option String
  processedRecord : Option String
  source : Option String
  checkpoint : Option String
  details : Option String
  middleware : Option String
  sink : Option String
  createdAt : String
  attempt : Int
  maxAttempts : Option Int
  deriving DecidableEq

/-- A stored row. -/
structure Row extends Columns where
  id : ℕ
  deriving DecidableEq

/-- A nullable payload column: `None` is stored as `NULL`. -/
def RowCodec.column (codec : RowCodec V T) (payload : Option V) : Option String :=
  match payload with
  | some value => some (codec.dumps (some value))
  | none => none

/-- `_json_or_raw`. -/
def RowCodec.jsonOrRaw (codec : RowCodec V T) (column : Option String) : Option V :=
  match column with
  | none => none
  | some raw =>
    match codec.loads raw with
    | some payload => payload
    | none => some (codec.text raw)

/-- A payload is read as it was stored in its column. -/
@[simp]
theorem RowCodec.jsonOrRaw_column (codec : RowCodec V T) (payload : Option V) :
    codec.jsonOrRaw (codec.column payload) = payload := by
  cases payload with
  | none => rfl
  | some value => simp [jsonOrRaw, column, codec.loads_dumps]

/-- A payload is read as it was written out. -/
@[simp]
theorem RowCodec.jsonOrRaw_dumps (codec : RowCodec V T) (payload : Option V) :
    codec.jsonOrRaw (some (codec.dumps payload)) = payload := by
  simp [jsonOrRaw, codec.loads_dumps]

/-- `_record_to_row`. -/
def recordToRow (codec : RowCodec V T) (r : DLQRecord V T) : Columns where
  pipelineId := r.pipelineId
  runId := r.runId
  stage := r.stage
  errorType := r.errorType
  errorMessage := r.errorMessage
  record := some (codec.dumps r.record)
  originalRecord := codec.column r.originalRecord
  processedRecord := codec.column r.processedRecord
  source := r.source
  checkpoint := codec.column r.checkpoint
  details := codec.column r.details
  middleware := r.middleware
  sink := r.sink
  createdAt := codec.isoformat r.createdAt
  attempt := r.attempt
  maxAttempts := r.maxAttempts

/-- `_row_to_record`; a text that is no time raises. -/
def rowToRecord (codec : RowCodec V T) (row : Row) : Option (DLQRecord V T) :=
  (codec.fromisoformat row.createdAt).map fun createdAt =>
    { pipelineId := row.pipelineId
      runId := row.runId
      stage := row.stage
      errorType := row.errorType
      errorMessage := row.errorMessage
      record := codec.jsonOrRaw row.record
      source := row.source
      checkpoint := codec.jsonOrRaw row.checkpoint
      details := codec.jsonOrRaw row.details
      middleware := row.middleware
      sink := row.sink
      createdAt := createdAt
      attempt := row.attempt
      maxAttempts := row.maxAttempts
      originalRecord := codec.jsonOrRaw row.originalRecord
      processedRecord := codec.jsonOrRaw row.processedRecord
      storageId := some row.id }

/-- The row that holds a record under an identifier. -/
def storedRow (codec : RowCodec V T) (entry : DLQRecord V T × ℕ) : Row :=
  { recordToRow codec entry.1 with id := entry.2 }

/-- A record as a reader finds it. -/
def asRead (entry : DLQRecord V T × ℕ) : DLQRecord V T := { entry.1 with storageId := some entry.2 }

/-- Every field survives the way into the table and back. -/
@[simp]
theorem rowToRecord_storedRow (codec : RowCodec V T) (entry : DLQRecord V T × ℕ) :
    rowToRecord codec (storedRow codec entry) = some (asRead entry) := by
  simp [rowToRecord, storedRow, recordToRow, asRead, codec.fromisoformat_isoformat]

end Records

/-! ### The table -/

section Table

variable {V T : Type}

/-- The table, with the largest identifier that was ever handed out. -/
structure Database where
  rows : List Row
  sequence : ℕ

/-- An `INSERT`, whose row receives the next identifier. -/
def Database.insert (db : Database) (columns : Columns) : Database where
  rows := db.rows ++ [{ columns with id := db.sequence + 1 }]
  sequence := db.sequence + 1

/-- `SELECT * ... ORDER BY id`. -/
def Database.select (db : Database) (condition : Row → Bool) : List Row :=
  (db.rows.filter condition).insertionSort fun row row' => row.id ≤ row'.id

/-- The identifier in the `WHERE` clause of `_update_attempt` and of `_delete`: the record's own
one, else that of the first row of the same pipeline, run, stage and time. -/
def Database.target (codec : RowCodec V T) (db : Database) (record : DLQRecord V T) : Option ℕ :=
  match record.storageId with
  | some id => some id
  | none =>
    (db.select fun row => row.pipelineId = record.pipelineId && row.runId = record.runId &&
      row.stage = record.stage && row.createdAt = codec.isoformat record.createdAt).head?.map Row.id

/-- `_update_attempt`. -/
def Database.updateAttempt (codec : RowCodec V T) (db : Database) (record : DLQRecord V T)
    (newAttempt : Int) : Database :=
  let target := db.target codec record
  { db with rows := db.rows.map fun row =>
      if target = some row.id then { row with attempt := newAttempt } else row }

/-- `_delete`. -/
def Database.delete (codec : RowCodec V T) (db : Database) (record : DLQRecord V T) : Database :=
  let target := db.target codec record
  { db with rows := db.rows.filter fun row => target ≠ some row.id }

namespace SQLiteDLQSink

/-- `SQLiteDLQSink.write`. -/
def write (codec : RowCodec V T) (db : Database) (record : DLQRecord V T) : Database :=
  db.insert (recordToRow codec record)

/-- `SQLiteDLQSink.replay`, with the record that it returns. -/
def replay (codec : RowCodec V T) (db : Database) (record : DLQRecord V T) :
    Database × DLQRecord V T :=
  let updated := { record with attempt := record.attempt + 1 }
  (db.updateAttempt codec record updated.attempt, updated)

/-- `SQLiteDLQSink.acknowledge`. -/
def acknowledge (codec : RowCodec V T) (db : Database) (record : DLQRecord V T) : Database :=
  db.delete codec record

end SQLiteDLQSink

/-- The filters of a `SQLiteDLQSource`. -/
structure SQLiteDLQSource where
  pipelineId : Option String
  stage : Option String
  limit : Option Int

namespace SQLiteDLQSource

/-- The filters of a source, on the two columns that they look at. -/
def accepts (self : SQLiteDLQSource) (pipelineId stage : String) : Bool :=
  self.pipelineId.all (pipelineId == ·) && self.stage.all (stage == ·)

/-- `_fetch_rows`; a negative `LIMIT` is none. -/
def fetchRows (self : SQLiteDLQSource) (db : Database) : List Row :=
  let rows := db.select fun row => self.accepts row.pipelineId row.stage
  match self.limit with
  | none => rows
  | some limit => if limit < 0 then rows else rows.take limit.toNat

/-- Whether a record may be retried once more. -/
def eligible (record : DLQRecord V T) : Bool :=
  match record.maxAttempts with
  | none => true
  | some maxAttempts => record.attempt < maxAttempts

/-- `DLQSource.stream` over `_iter_records`. -/
def stream (codec : RowCodec V T) (self : SQLiteDLQSource) (db : Database) :
    Option (List (DLQRecord V T)) :=
  ((self.fetchRows db).mapM (rowToRecord codec)).map (·.filter eligible)

end SQLiteDLQSource

end Table

/-! ### Histories -/

section History

variable {V T : Type}

/-- A call on the store; a read names its source and the records that it returned. -/
inductive Call (V T : Type) where
  | write (record : DLQRecord V T)
  | replay (record : DLQRecord V T)
  | acknowledge (record : DLQRecord V T)
  | read (source : SQLiteDLQSource) (records : List (DLQRecord V T))

namespace Call

/-- The record that a call writes. -/
def written? : Call V T → Option (DLQRecord V T)
  | write record => some record
  | _ => none

/-- Whether a call replays the record of an identifier. -/
def replays (id : ℕ) : Call V T → Bool
  | replay record => record.storageId = some id
  | _ => false

/-- Whether a call acknowledges the record of an identifier. -/
def acknowledges (id : ℕ) : Call V T → Bool
  | acknowledge record => record.storageId = some id
  | _ => false

end Call

/-- The written records in order, numbered from one. -/
def writtenRecords (history : List (Call V T)) : List (DLQRecord V T × ℕ) :=
  (history.filterMap Call.written?).zipIdx 1

/-- How often the record of an identifier was replayed. -/
def replaysOf (history : List (Call V T)) (id : ℕ) : ℕ := history.countP (Call.replays id)

/-- Whether the record of an identifier was acknowledged. -/
def acknowledged (history : List (Call V T)) (id : ℕ) : Bool := history.any (Call.acknowledges id)

/-- A written record with its replays counted in. -/
def afterReplays (history : List (Call V T)) (entry : DLQRecord V T × ℕ) : DLQRecord V T × ℕ :=
  ({ entry.1 with attempt := entry.1.attempt + replaysOf history entry.2 }, entry.2)

/-- What the store is for: the written and not yet acknowledged records, in the order of their
insertion, each with its replays counted in. -/
def outstanding (history : List (Call V T)) : List (DLQRecord V T × ℕ) :=
  ((writtenRecords history).filter fun entry => !acknowledged history entry.2).map
    (afterReplays history)

/-- What a read by an unlimited source has to return after a history. -/
def SQLiteDLQSource.due (self : SQLiteDLQSource) (history : List (Call V T)) :
    List (DLQRecord V T) :=
  ((outstanding history).map asRead).filter fun record =>
    SQLiteDLQSource.eligible record && self.accepts record.pipelineId record.stage

/-- The table, with the records that reads have handed out. -/
structure Store (V T : Type) where
  database : Database
  taken : List (DLQRecord V T)

/-- A new store. -/
def Store.empty : Store V T := ⟨⟨[], 0⟩, []⟩

/-- The effect of one call. Replays and acknowledgements are of records taken from earlier reads,
which may be stale; a read hands its records out. -/
inductive Store.Step (codec : RowCodec V T) (s : Store V T) : Call V T → Store V T → Prop where
  | write (record : DLQRecord V T) :
      Step codec s (.write record) { s with database := SQLiteDLQSink.write codec s.database record }
  | replay (record : DLQRecord V T) (taken : record ∈ s.taken) :
      Step codec s (.replay record)
        { s with database := (SQLiteDLQSink.replay codec s.database record).1 }
  | acknowledge (record : DLQRecord V T) (taken : record ∈ s.taken) :
      Step codec s (.acknowledge record)
        { s with database := SQLiteDLQSink.acknowledge codec s.database record }
  | read {source : SQLiteDLQSource} {records : List (DLQRecord V T)}
      (found : source.stream codec s.database = some records) :
      Step codec s (.read source records) { s with taken := s.taken ++ records }

/-- The reader holds the attempt that is stored, or the row is gone. -/
def Database.HoldsAttempt (db : Database) (record : DLQRecord V T) : Prop :=
  ∀ row ∈ db.rows, record.storageId = some row.id → row.attempt = record.attempt

/-- A step in which a replayed record is not stale. -/
def Store.CurrentStep (codec : RowCodec V T) (s : Store V T) (call : Call V T) (s' : Store V T) :
    Prop :=
  s.Step codec call s' ∧ ∀ record, call = .replay record → s.database.HoldsAttempt record

end History

/-! ### What the table holds after a history -/

section Representation

variable {V T : Type} {codec : RowCodec V T} {history : List (Call V T)} {s : Store V T}

/-- How many records a history wrote. -/
def written (history : List (Call V T)) : ℕ := (history.filterMap Call.written?).length

/-- The table holds the outstanding records, and nobody knows an identifier from the future. -/
structure Represents (codec : RowCodec V T) (history : List (Call V T)) (s : Store V T) : Prop where
  rows : s.database.rows = (outstanding history).map (storedRow codec)
  sequence : s.database.sequence = written history
  taken : ∀ record ∈ s.taken, ∃ id ≤ written history, record.storageId = some id
  fresh : ∀ id, written history < id → replaysOf history id = 0 ∧ acknowledged history id = false

/-- A call adds its own replays of the record. -/
theorem replaysOf_append (call : Call V T) (id : ℕ) :
    replaysOf (history ++ [call]) id = replaysOf history id + (call.replays id).toNat := by
  cases hcall : call.replays id <;> simp [replaysOf, hcall]

/-- A record is acknowledged by the call or was before. -/
theorem acknowledged_append (call : Call V T) (id : ℕ) :
    acknowledged (history ++ [call]) id = (acknowledged history id || call.acknowledges id) := by
  simp [acknowledged]

/-- Other calls write no record. -/
theorem writtenRecords_append (call : Call V T) (h : call.written? = none) :
    writtenRecords (history ++ [call]) = writtenRecords history := by
  simp [writtenRecords, h]

/-- They leave the number of written records. -/
theorem written_append (call : Call V T) (h : call.written? = none) :
    written (history ++ [call]) = written history := by
  simp [written, h]

/-- A written record gets the next identifier. -/
theorem writtenRecords_write (record : DLQRecord V T) :
    writtenRecords (history ++ [.write record]) =
      writtenRecords history ++ [(record, written history + 1)] := by
  simp [writtenRecords, written, Call.written?, List.zipIdx_append, Nat.add_comm]

/-- The identifiers of the written records increase. -/
theorem writtenRecords_increasing (history : List (Call V T)) :
    (writtenRecords history).Pairwise fun entry entry' => entry.2 < entry'.2 := by
  have h : (List.range' 1 (written history)).Pairwise (· < ·) := List.pairwise_lt_range' 1
  unfold written at h
  rw [← List.zipIdx_map_snd, List.pairwise_map] at h
  exact h

/-- The identifiers of the written records are those up to their number. -/
theorem le_written_of_mem {entry : DLQRecord V T × ℕ} (h : entry ∈ writtenRecords history) :
    entry.2 ≤ written history := by
  have hlt := List.snd_lt_add_of_mem_zipIdx h
  unfold written
  omega

/-- The outstanding records have increasing identifiers. -/
theorem outstanding_increasing (history : List (Call V T)) :
    (outstanding history).Pairwise fun entry entry' => entry.2 < entry'.2 := by
  unfold outstanding
  rw [List.pairwise_map]
  exact (writtenRecords_increasing history).filter _

/-- Their identifiers have been given out. -/
theorem le_written_of_outstanding {entry : DLQRecord V T × ℕ} (h : entry ∈ outstanding history) :
    entry.2 ≤ written history := by
  obtain ⟨entry', hmem, rfl⟩ := List.mem_map.mp h
  have hle : entry'.2 ≤ written history := le_written_of_mem (List.mem_filter.mp hmem).1
  exact hle

/-- A read leaves the outstanding records as they were. -/
theorem outstanding_read (source : SQLiteDLQSource) (records : List (DLQRecord V T)) :
    outstanding (history ++ [.read source records]) = outstanding history := by
  unfold outstanding
  rw [writtenRecords_append _ rfl]
  simp [afterReplays, acknowledged_append, replaysOf_append, Call.acknowledges, Call.replays]

/-- A written record comes last. -/
theorem outstanding_write (record : DLQRecord V T)
    (hfresh : replaysOf history (written history + 1) = 0 ∧
      acknowledged history (written history + 1) = false) :
    outstanding (history ++ [.write record]) =
      outstanding history ++ [(record, written history + 1)] := by
  unfold outstanding
  rw [writtenRecords_write]
  simp [afterReplays, acknowledged_append, replaysOf_append, Call.acknowledges, Call.replays,
    hfresh.1, hfresh.2]

/-- A replay counts for one record and changes no other. -/
theorem outstanding_replay {record : DLQRecord V T} {id : ℕ} (hid : record.storageId = some id) :
    outstanding (history ++ [.replay record]) = (outstanding history).map fun entry =>
      if entry.2 = id then ({ entry.1 with attempt := entry.1.attempt + 1 }, entry.2)
      else entry := by
  unfold outstanding
  rw [writtenRecords_append _ rfl, List.map_map]
  simp only [acknowledged_append, Call.acknowledges, Bool.or_false]
  refine List.map_congr_left fun entry _ => ?_
  by_cases hentry : entry.2 = id
  · simp [afterReplays, replaysOf_append, Call.replays, hid, hentry, Int.add_assoc]
  · simp [afterReplays, replaysOf_append, Call.replays, hid, hentry, Ne.symm hentry]

/-- An acknowledgement removes one record and changes no other. -/
theorem outstanding_acknowledge {record : DLQRecord V T} {id : ℕ}
    (hid : record.storageId = some id) :
    outstanding (history ++ [.acknowledge record]) =
      (outstanding history).filter fun entry => entry.2 ≠ id := by
  unfold outstanding
  rw [writtenRecords_append _ rfl, List.filter_map, List.filter_filter]
  have hreplays : afterReplays (history ++ [.acknowledge record]) = afterReplays history := by
    funext entry
    simp [afterReplays, replaysOf_append, Call.replays]
  rw [hreplays]
  congr 1
  refine List.filter_congr fun entry _ => ?_
  by_cases hentry : entry.2 = id
  · simp [acknowledged_append, Call.acknowledges, hid, afterReplays, hentry]
  · simp [acknowledged_append, Call.acknowledges, hid, afterReplays, hentry, Ne.symm hentry]

/-! ### What a read finds -/

/-- A table whose identifiers increase is selected in the order of its rows. -/
theorem Database.select_of_increasing {db : Database}
    (h : db.rows.Pairwise fun row row' => row.id < row'.id) (condition : Row → Bool) :
    db.select condition = db.rows.filter condition := by
  refine List.Pairwise.insertionSort_eq ?_
  exact (h.filter condition).imp fun hlt => hlt.le

/-- The rows of records are read as the records. -/
theorem mapM_rowToRecord (entries : List (DLQRecord V T × ℕ)) :
    (entries.map (storedRow codec)).mapM (rowToRecord codec) = some (entries.map asRead) := by
  induction entries with
  | nil => rfl
  | cons entry entries ih => simp [List.mapM_cons, ih]

namespace Represents

/-- The rows of the table have increasing identifiers. -/
theorem rows_increasing (h : Represents codec history s) :
    s.database.rows.Pairwise fun row row' => row.id < row'.id := by
  rw [h.rows, List.pairwise_map]
  exact outstanding_increasing history

/-- The rows that a source selects. -/
theorem fetched (h : Represents codec history s) (source : SQLiteDLQSource) :
    ∃ entries : List (DLQRecord V T × ℕ), entries.Sublist (outstanding history) ∧
      source.fetchRows s.database = entries.map (storedRow codec) := by
  let selected := (outstanding history).filter fun entry =>
    source.accepts entry.1.pipelineId entry.1.stage
  have hselected : s.database.select (fun row => source.accepts row.pipelineId row.stage) =
      selected.map (storedRow codec) := by
    rw [Database.select_of_increasing h.rows_increasing, h.rows, List.filter_map]
    rfl
  cases hlimit : source.limit with
  | none =>
    exact ⟨selected, List.filter_sublist, by simp [SQLiteDLQSource.fetchRows, hlimit, hselected]⟩
  | some limit =>
    by_cases hneg : limit < 0
    · exact ⟨selected, List.filter_sublist,
        by simp [SQLiteDLQSource.fetchRows, hlimit, hselected, hneg]⟩
    · exact ⟨selected.take limit.toNat, (List.take_sublist _ _).trans List.filter_sublist,
        by simp [SQLiteDLQSource.fetchRows, hlimit, hselected, hneg]⟩

/-- An unlimited source reads what is due. -/
theorem stream_eq (h : Represents codec history s) {source : SQLiteDLQSource}
    (hlimit : source.limit = none) :
    source.stream codec s.database = some (source.due history) := by
  have hrows : source.fetchRows s.database = ((outstanding history).filter fun entry =>
      source.accepts entry.1.pipelineId entry.1.stage).map (storedRow codec) := by
    simp only [SQLiteDLQSource.fetchRows, hlimit]
    rw [Database.select_of_increasing h.rows_increasing, h.rows, List.filter_map]
    rfl
  unfold SQLiteDLQSource.stream SQLiteDLQSource.due
  rw [hrows, mapM_rowToRecord, ← List.filter_filter]
  rw [List.filter_map (f := asRead)]
  rfl

/-- A reader learns identifiers of written records only. -/
theorem stream_known (h : Represents codec history s) {source : SQLiteDLQSource}
    {records : List (DLQRecord V T)} (hfound : source.stream codec s.database = some records) :
    ∀ record ∈ records, ∃ id ≤ written history, record.storageId = some id := by
  obtain ⟨entries, hsub, hrows⟩ := h.fetched source
  unfold SQLiteDLQSource.stream at hfound
  rw [hrows, mapM_rowToRecord] at hfound
  intro record hrecord
  obtain rfl : (entries.map asRead).filter SQLiteDLQSource.eligible = records := by
    simpa using hfound
  obtain ⟨entry, hentry, rfl⟩ := List.mem_map.mp (List.mem_filter.mp hrecord).1
  exact ⟨entry.2, le_written_of_outstanding (hsub.subset hentry), rfl⟩

/-! ### One step, and a whole run -/

/-- The empty table represents the empty history. -/
theorem empty : Represents codec [] (Store.empty : Store V T) where
  rows := rfl
  sequence := rfl
  taken := by simp [Store.empty]
  fresh := by simp [replaysOf, acknowledged]

/-- A call that does not name an identifier of the future keeps it fresh. -/
theorem fresh_append (h : Represents codec history s) {call : Call V T} {id : ℕ}
    (hlt : written history < id) (hreplays : call.replays id = false)
    (hacknowledges : call.acknowledges id = false) :
    replaysOf (history ++ [call]) id = 0 ∧ acknowledged (history ++ [call]) id = false := by
  rw [replaysOf_append, acknowledged_append, hreplays, hacknowledges, Bool.or_false]
  exact h.fresh id hlt

/-- A write adds its row. -/
theorem write (h : Represents codec history s) (record : DLQRecord V T) :
    Represents codec (history ++ [.write record])
      { s with database := SQLiteDLQSink.write codec s.database record } := by
  have hwritten : written (history ++ [.write record]) = written history + 1 := by
    simp [written, Call.written?]
  refine ⟨?_, ?_, ?_, ?_⟩
  · rw [outstanding_write _ (h.fresh _ (Nat.lt_succ_self _)), List.map_append, ← h.rows]
    simp [SQLiteDLQSink.write, Database.insert, storedRow, h.sequence]
  · simp [SQLiteDLQSink.write, Database.insert, hwritten, h.sequence]
  · intro record' htaken
    obtain ⟨id, hle, hid⟩ := h.taken record' htaken
    exact ⟨id, by omega, hid⟩
  · intro id hlt
    exact h.fresh_append (by omega) rfl rfl

/-- A replay from a record with the attempt of the table counts it up. -/
theorem replay (h : Represents codec history s) {record : DLQRecord V T}
    (htaken : record ∈ s.taken) (hholds : s.database.HoldsAttempt record) :
    Represents codec (history ++ [.replay record])
      { s with database := (SQLiteDLQSink.replay codec s.database record).1 } := by
  obtain ⟨id, hle, hid⟩ := h.taken record htaken
  refine ⟨?_, ?_, ?_, ?_⟩
  · rw [outstanding_replay hid, List.map_map]
    simp only [SQLiteDLQSink.replay, Database.updateAttempt, Database.target, hid]
    unfold Database.HoldsAttempt at hholds
    rw [h.rows] at hholds ⊢
    rw [List.map_map]
    refine List.map_congr_left fun entry hentry => ?_
    have hattempt := hholds (storedRow codec entry) (List.mem_map_of_mem hentry)
    by_cases hsame : entry.2 = id
    · -- the reader's attempt is the stored one, so adding to it counts this replay
      simp only [storedRow, recordToRow, hid, hsame, forall_const] at hattempt
      simp [storedRow, recordToRow, hsame, hattempt]
    · simp [storedRow, hsame, Ne.symm hsame]
  · rw [written_append _ rfl]
    exact h.sequence
  · rw [written_append _ rfl]
    exact h.taken
  · intro id' hlt
    rw [written_append _ rfl] at hlt
    have hne : id ≠ id' := by omega
    exact h.fresh_append hlt (by simp [Call.replays, hid, hne]) rfl

/-- An acknowledgement takes the row out. -/
theorem acknowledge (h : Represents codec history s) {record : DLQRecord V T}
    (htaken : record ∈ s.taken) :
    Represents codec (history ++ [.acknowledge record])
      { s with database := SQLiteDLQSink.acknowledge codec s.database record } := by
  obtain ⟨id, hle, hid⟩ := h.taken record htaken
  refine ⟨?_, ?_, ?_, ?_⟩
  · rw [outstanding_acknowledge hid]
    simp only [SQLiteDLQSink.acknowledge, Database.delete, Database.target, hid]
    rw [h.rows, List.filter_map]
    congr 1
    refine List.filter_congr fun entry _ => ?_
    by_cases hsame : entry.2 = id
    · simp [storedRow, hsame]
    · simp [storedRow, hsame, Ne.symm hsame]
  · rw [written_append _ rfl]
    exact h.sequence
  · rw [written_append _ rfl]
    exact h.taken
  · intro id' hlt
    rw [written_append _ rfl] at hlt
    have hne : id ≠ id' := by omega
    exact h.fresh_append hlt rfl (by simp [Call.acknowledges, hid, hne])

/-- A read changes no row. -/
theorem read (h : Represents codec history s) {source : SQLiteDLQSource}
    {records : List (DLQRecord V T)} (hfound : source.stream codec s.database = some records) :
    Represents codec (history ++ [.read source records]) { s with taken := s.taken ++ records } := by
  refine ⟨?_, ?_, ?_, ?_⟩
  · rw [outstanding_read]
    exact h.rows
  · rw [written_append _ rfl]
    exact h.sequence
  · rw [written_append _ rfl]
    intro record hrecord
    rcases List.mem_append.mp hrecord with htaken | hread
    · exact h.taken record htaken
    · exact h.stream_known hfound record hread
  · rw [written_append _ rfl]
    intro id hlt
    exact h.fresh_append hlt rfl rfl

/-- A step with no stale replay keeps the table in line with the history. -/
theorem step {s' : Store V T} {call : Call V T} (h : Represents codec history s)
    (hstep : s.CurrentStep codec call s') : Represents codec (history ++ [call]) s' := by
  obtain ⟨hstep, hcurrent⟩ := hstep
  cases hstep with
  | write record => exact h.write record
  | replay record htaken => exact h.replay htaken (hcurrent _ rfl)
  | acknowledge record htaken => exact h.acknowledge htaken
  | read hfound => exact h.read hfound

/-- After every run without stale replays the table holds what the history says. -/
theorem run (h : Effect.Runs (Store.CurrentStep codec) Store.empty history s) :
    Represents codec history s :=
  h.invariant (I := Represents codec) empty fun _ _ _ _ hrepresents hstep => hrepresents.step hstep

end Represents

end Representation

/-! ### Reads -/

section Reads

variable {V T : Type} {codec : RowCodec V T}

/-- **Reads.** In every run whose replayed records hold the attempt that is stored, or whose rows
are gone: a read by an unlimited source does not raise, and returns in insertion order exactly the
written and not yet acknowledged records that match its filters and are still eligible; each field is
the written one, and the attempt is the written attempt plus the number of replays.  So it was for every
read of the run. -/
theorem read_eq_due {history : List (Call V T)} {s : Store V T}
    (run : Effect.Runs (Store.CurrentStep codec) Store.empty history s) {source : SQLiteDLQSource}
    (hlimit : source.limit = none) :
    source.stream codec s.database = some (source.due history) ∧
      ∀ before records after, history = before ++ [.read source records] ++ after →
        records = source.due before := by
  refine ⟨(Represents.run run).stream_eq hlimit, fun before records after hhistory => ?_⟩
  rw [hhistory] at run
  obtain ⟨s₁, hread, -⟩ := run.split
  obtain ⟨s₀, hbefore, hstep, -⟩ := hread.last
  have hfound := (Represents.run hbefore).stream_eq hlimit
  cases hstep with
  | read hrecords =>
    rw [hrecords] at hfound
    exact Option.some.inj hfound

end Reads

/-! ### Two readers -/

section TwoReaders

/-- A codec for truth values and a single time. -/
def flagCodec : RowCodec Bool Unit where
  dumps
    | none => "null"
    | some false => "false"
    | some true => "true"
  loads
    | "null" => some none
    | "false" => some (some false)
    | "true" => some (some true)
    | _ => none
  text _ := false
  isoformat _ := "2024-01-01T00:00:00+00:00"
  fromisoformat text := if text = "2024-01-01T00:00:00+00:00" then some () else none
  loads_dumps payload := by
    rcases payload with _ | _ | _ <;> rfl
  fromisoformat_isoformat _ := by simp

/-- A record that failed in the sink with the falsy payload `False`. -/
def flagRecord : DLQRecord Bool Unit where
  pipelineId := "orders"
  runId := "run"
  stage := "sink_write"
  errorType := "OSError"
  errorMessage := "disk full"
  record := some false
  source := some "kafka"
  checkpoint := none
  details := none
  middleware := none
  sink := some "warehouse"
  createdAt := ()
  attempt := 0
  maxAttempts := some 3
  originalRecord := some false
  processedRecord := none
  storageId := none

/-- `flagRecord` as it is read after some attempts. -/
def flagRead (attempt : Int) : DLQRecord Bool Unit :=
  { flagRecord with attempt := attempt, storageId := some 1 }

/-- A source that reads everything. -/
def everything : SQLiteDLQSource := ⟨none, none, none⟩

/-- A row with few attempts is read. -/
theorem everything_reads (attempt : Int) (hattempt : attempt < 3) :
    everything.stream flagCodec
      ⟨[storedRow flagCodec ({ flagRecord with attempt := attempt }, 1)], 1⟩ =
      some [flagRead attempt] := by
  have hfetch : everything.fetchRows
      ⟨[storedRow flagCodec ({ flagRecord with attempt := attempt }, 1)], 1⟩ =
      [({ flagRecord with attempt := attempt }, 1)].map (storedRow flagCodec) := rfl
  unfold SQLiteDLQSource.stream
  rw [hfetch, mapM_rowToRecord]
  simp [SQLiteDLQSource.eligible, asRead, flagRead, flagRecord, hattempt]

/-- A record that is replayed once is read with one attempt more, and a later read does not raise. -/
theorem read_eq_due_once :
    [flagRead 1] = everything.due
        [.write flagRecord, .read everything [flagRead 0], .replay (flagRead 0)] ∧
      ∃ s : Store Bool Unit, everything.stream flagCodec s.database = some [flagRead 1] := by
  have hwrite : Effect.Runs (Store.CurrentStep flagCodec) Store.empty [.write flagRecord]
      ⟨⟨[storedRow flagCodec (flagRecord, 1)], 1⟩, []⟩ :=
    Effect.Runs.snoc .start ⟨.write flagRecord, by simp⟩
  have hread := hwrite.snoc ⟨.read (everything_reads 0 (by decide)), by simp⟩
  have hreplay := hread.snoc
    ⟨.replay (flagRead 0) (by simp), by
      rintro record ⟨⟩
      simp [Database.HoldsAttempt, storedRow, recordToRow, flagRead, flagRecord]⟩
  have hagain := hreplay.snoc ⟨.read (everything_reads 1 (by decide)), by simp⟩
  obtain ⟨hlater, hreads⟩ := read_eq_due hagain (show everything.limit = none from rfl)
  exact ⟨hreads _ _ [] rfl, _, hlater⟩

/-- Two readers of one record replay it one after the other; the second writes the attempt of its
own copy over that of the first, and one of the two replays is not counted. -/
theorem not_read_eq_due_stale :
    ∃ s, Effect.Runs (Store.Step flagCodec) Store.empty
        [.write flagRecord, .read everything [flagRead 0], .read everything [flagRead 0],
          .replay (flagRead 0), .replay (flagRead 0), .read everything [flagRead 1]] s ∧
      [flagRead 1] ≠ everything.due
        [.write flagRecord, .read everything [flagRead 0], .read everything [flagRead 0],
          .replay (flagRead 0), .replay (flagRead 0)] := by
  have hwrite : Effect.Runs (Store.Step flagCodec) Store.empty [.write flagRecord]
      ⟨⟨[storedRow flagCodec (flagRecord, 1)], 1⟩, []⟩ :=
    Effect.Runs.snoc .start (.write flagRecord)
  have hread := hwrite.snoc (.read (everything_reads 0 (by decide)))
  have hread' := hread.snoc (.read (everything_reads 0 (by decide)))
  have hreplay := hread'.snoc (.replay (flagRead 0) (by simp))
  have hreplay' := hreplay.snoc (.replay (flagRead 0) (by simp))
  have hagain := hreplay'.snoc (.read (everything_reads 1 (by decide)))
  exact ⟨_, by simpa using hagain, by decide⟩

end TwoReaders

end AgoraEtl.Dlq
