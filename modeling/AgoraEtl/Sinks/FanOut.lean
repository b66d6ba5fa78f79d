import AgoraEtl.Delivery.Types

/-!
# `SinkFanOut`

A fan-out writes each record to all of its sinks and folds what becomes of these writes into one
report for each record.  A call of a sink may return nothing or a `WriteResult`, raise an exception,
or be cancelled.
-/

namespace AgoraEtl

variable {T α : Type}

/-! ## Calls of a sink -/

/-- How the call of a sink fails: with an `Exception`, or because it is cancelled. -/
inductive CallFailure : Type where
  | exception (exc : Exc)
  | cancelled
  deriving DecidableEq

/-- What becomes of a call: a value or a failure. -/
abbrev Answer (α : Type) : Type := Except CallFailure α

/-- What becomes of a call of `sink.write`, which may return a `WriteResult`. -/
abbrev Ending : Type := Answer (Option WriteResult)

/-- What `sink.write_batch` returns: `None`, a list of `WriteResult`s, or something else. -/
inductive BatchReturn : Type where
  | nothing
  | results (writeResults : List WriteResult)
  | other

/-- A sink, by its capabilities and by what becomes of its calls, which may depend on the records that
it was given before. -/
structure Sink (T : Type) : Type where
  batchWritable : Bool
  arrowWritable : Bool
  flushEvery : Option ℤ
  batchSize : Option ℤ
  write : List T → T → Ending
  writeBatch : List T → List T → Answer BatchReturn
  writeArrowBatch : List T → List T → Ending

/-- Writes each record to all registered sinks. -/
structure SinkFanOut (T : Type) : Type where
  sinks : List (Sink T)
  sinks_ne_nil : sinks ≠ []
  concurrentWrites : Bool
  maxConcurrency : Option ℤ

/-- `_write_ok`. -/
def writeOk : WriteResult := ⟨true, []⟩

/-- `_normalize_batch_write_results`. -/
def normalizeBatchWriteResults (result : BatchReturn) (expected : ℕ) : Answer (List WriteResult) :=
  match result with
  | .nothing => .ok (List.replicate expected writeOk)
  | .results writeResults =>
    if writeResults.length ≠ expected then
      .error (.exception (.runtimeError
        ("Sink.write_batch() must return one WriteResult per input record. " ++
          s!"Expected {expected}, got {writeResults.length}.")))
    else .ok writeResults
  | .other =>
    .error (.exception (.runtimeError
      ("Sink.write_batch() must return None or a list[WriteResult] matching the input batch.")))

/-- What a fan-out makes of the writes of a batch to one sink: a list of `WriteResult`s, a list of
optional errors, or something that is not a list. -/
inductive SinkResult : Type where
  | writeResults (results : List WriteResult)
  | perRecordErrors (errors : List (Option Exc))
  | other

namespace Sink

variable (s : Sink T)

/-- `_arrow_fallback_chunk_size`. -/
def arrowFallbackChunkSize : ℕ :=
  ((([s.flushEvery, s.batchSize].filterMap id).find? fun value => decide (0 < value)).map
    Int.toNat).getD 1000

/-- The records are written one by one; an exception is kept for its record.  Whether the writes are
gathered makes no difference to what becomes of them. -/
def writeEach : List T → List T → Answer (List (Option Exc))
  | _, [] => .ok []
  | before, record :: records =>
    match s.write before record with
    | .error .cancelled => .error .cancelled
    | .error (.exception exc) => (some exc :: ·) <$> writeEach (before ++ [record]) records
    | .ok _ => (none :: ·) <$> writeEach (before ++ [record]) records

/-- `_write_batch_to_sink`. -/
def writeBatchToSink (before records : List T) : Answer SinkResult :=
  if s.batchWritable then do
    let batchResult ← s.writeBatch before records
    let writeResults ← normalizeBatchWriteResults batchResult records.length
    pure (.writeResults writeResults)
  else do
    let errors ← s.writeEach before records
    pure (.perRecordErrors errors)

end Sink

/-- `except Exception`: an exception is kept, a cancellation propagates. -/
def caught : Answer α → Answer (Answer α)
  | .error .cancelled => .error .cancelled
  | answer => .ok answer

/-- Fold the answers of all sinks for one record. -/
def countAnswers (answers : List Ending) : WriteResult where
  written := answers.any fun
    | .error (.exception _) => false
    | _ => true
  errors := answers.filterMap fun
    | .error (.exception exc) => some exc
    | _ => none

/-- Fold what one sink has made of the batch into the results of its records. -/
def foldResult (acc : List WriteResult) : Answer SinkResult → List WriteResult
  | .error (.exception exc) => acc.map fun wr => ⟨wr.written, wr.errors ++ [exc]⟩
  | .ok (.writeResults writeResults) =>
    acc.zipWith (fun wr r => ⟨wr.written || r.written, wr.errors ++ r.errors⟩) writeResults
  | .ok (.perRecordErrors errors) =>
    acc.zipWith (fun wr error => match error with
      | some exc => ⟨wr.written, wr.errors ++ [exc]⟩
      | none => ⟨true, wr.errors⟩) errors
  | _ => acc.map fun wr => ⟨true, wr.errors⟩

/-- The errors with which a result lets `write_arrow_batch` fail, if any. -/
def SinkResult.firstErrors : SinkResult → Option (List Exc)
  | .writeResults results => (results.find? fun wr => !wr.errors.isEmpty).map WriteResult.errors
  | .perRecordErrors errors => (errors.findSome? id).map fun exc => [exc]
  | .other => none

/-- Raise the first error of a result. -/
def SinkResult.raiseFirst (result : SinkResult) : Answer Unit :=
  match result.firstErrors.bind List.head? with
  | some exc => .error (.exception exc)
  | none => .ok ()

/-- The slices of the rows of the given size. -/
def chunks (size : ℕ) (rows : List T) : List (List T) :=
  if size = 0 ∨ rows = [] then [] else rows.take size :: chunks size (rows.drop size)
termination_by rows.length
decreasing_by
  rename_i h
  have hpos : 0 < rows.length := List.length_pos_iff.mpr fun hnil => h (.inr hnil)
  rw [List.length_drop]
  have hsize : size ≠ 0 := fun hzero => h (.inl hzero)
  omega

namespace Sink

variable (s : Sink T)

/-- Write the chunks one after the other, and raise the first error of each. -/
def writeChunksRaising : List T → List (List T) → Answer Unit
  | _, [] => .ok ()
  | before, chunk :: rest => do
    let result ← s.writeBatchToSink before chunk
    result.raiseFirst
    writeChunksRaising (before ++ chunk) rest

/-- `_write_chunks`: the errors of the first chunk that has some, and nothing otherwise. -/
def writeChunks : List T → List (List T) → Answer SinkResult
  | _, [] => .ok .other
  | before, chunk :: rest => do
    let result ← s.writeBatchToSink before chunk
    match result.firstErrors with
    | some errors => pure (.perRecordErrors (errors.map some))
    | none => writeChunks (before ++ chunk) rest

/-- The chunks in which the rows of an Arrow batch are written to a sink that takes rows. -/
def arrowChunks (rows : List T) : List (List T) :=
  if rows.length ≤ s.arrowFallbackChunkSize then [rows] else chunks s.arrowFallbackChunkSize rows

/-- The call by which a sink among several is given an Arrow batch. -/
def arrowCall (before rows : List T) : Answer SinkResult :=
  if s.arrowWritable then do
    let _ ← s.writeArrowBatch before rows
    pure .other
  else if rows.length ≤ s.arrowFallbackChunkSize then s.writeBatchToSink before rows
  else s.writeChunks before (chunks s.arrowFallbackChunkSize rows)

end Sink

namespace SinkFanOut

variable (f : SinkFanOut T)

/-- `_run_sink_calls`. -/
def runSinkCalls (calls : List (Answer α)) : Answer (List (Answer α)) :=
  if f.maxConcurrency = some 1 then calls.mapM caught else .ok calls

/-- The calls are awaited one by one, or run concurrently. -/
def awaitCalls (calls : List (Answer α)) : Answer (List (Answer α)) :=
  if f.concurrentWrites then f.runSinkCalls calls else calls.mapM caught

/-- `SinkFanOut.write`. -/
def write (before : List T) (record : T) : Answer WriteResult :=
  match f.sinks, f.concurrentWrites with
  | [sink], false =>
    match sink.write before record with
    | .ok _ => .ok writeOk
    | .error (.exception exc) => .ok ⟨false, [exc]⟩
    | .error .cancelled => .error .cancelled
  | sinks, _ => do
    let results ← f.awaitCalls (sinks.map fun sink => sink.write before record)
    pure (countAnswers results)

/-- `SinkFanOut.write_batch` where there are several sinks, or the writes are concurrent. -/
def writeBatchToAll (before records : List T) : Answer (List WriteResult) := do
  let results ← f.awaitCalls (f.sinks.map fun sink => sink.writeBatchToSink before records)
  pure (results.foldl foldResult (List.replicate records.length ⟨false, []⟩))

/-- `SinkFanOut.write_batch`. -/
def writeBatch (before records : List T) : Answer (List WriteResult) :=
  if records.isEmpty then .ok []
  else match f.sinks with
    | [sink] =>
      if sink.batchWritable then
        match sink.writeBatch before records >>= (normalizeBatchWriteResults · records.length) with
        | .ok writeResults => .ok writeResults
        | .error (.exception exc) => .ok (List.replicate records.length ⟨false, [exc]⟩)
        | .error .cancelled => .error .cancelled
      else if f.concurrentWrites = false then do
        let errors ← sink.writeEach before records
        pure (errors.map fun
          | none => writeOk
          | some exc => ⟨false, [exc]⟩)
      else f.writeBatchToAll before records
    | _ => f.writeBatchToAll before records

/-- The loop at the end of `write_arrow_batch`. -/
def raiseFirstError : List (Answer SinkResult) → Answer Unit
  | [] => .ok ()
  | .error (.exception exc) :: _ => .error (.exception exc)
  | .error .cancelled :: results => raiseFirstError results
  | .ok result :: results => do
    result.raiseFirst
    raiseFirstError results

/-- `SinkFanOut.write_arrow_batch`. -/
def writeArrowBatch (before rows : List T) : Answer Unit :=
  match f.sinks, f.concurrentWrites with
  | [sink], false =>
    if sink.arrowWritable then do
      let _ ← sink.writeArrowBatch before rows
      pure ()
    else sink.writeChunksRaising before (sink.arrowChunks rows)
  | sinks, _ => do
    let results ← f.awaitCalls (sinks.map fun sink => sink.arrowCall before rows)
    raiseFirstError results

end SinkFanOut

end AgoraEtl
