import AgoraEtl.Data.Grouping
import AgoraEtl.Sinks.FanOut

/-!
# `SinkRouter`

A router writes each record to the sink of the first route whose predicate holds of it.  `writeBatch`
first asks the predicates about all records, then writes the records of each sink together, in one of
three ways, and hands the results back to the positions of the records.  `writeRecords` is what the
record path makes of the same records, where an exception of a predicate is the error of its record.
-/

namespace AgoraEtl

variable {T : Type}

/-- A sink that tells the router how its writes may be ordered. -/
structure RoutedSink (T : Type) : Type extends Sink T where
  parallelWritesSafe : Bool
  orderedWritesRequired : Bool

/-- A predicate + sink pair.  The sink is known by its identity, so that routes can share it. -/
structure SinkRoute (T : Type) : Type where
  predicate : T → Except Exc Bool
  sink : ℕ

/-- Routes each record to the first matching sink. -/
structure SinkRouter (T : Type) : Type where
  routes : List (SinkRoute T)
  default : Option ℕ
  sinks : ℕ → RoutedSink T

/-- The records that each sink was given so far. -/
abbrev Given (T : Type) : Type := ℕ → List T

/-- More records for a sink. -/
def Given.add (given : Given T) (sink : ℕ) (records : List T) : Given T :=
  Function.update given sink (given sink ++ records)

/-! ## The lists of flags and errors -/

/-- What a `WriteResult` adds to the flag and the errors at a position. -/
def noteResult (results : List WriteResult) (index : ℕ) (wr : WriteResult) : List WriteResult :=
  results.modify index fun old => ⟨old.written || wr.written, old.errors ++ wr.errors⟩

/-- What one write without or with an exception is reported as. -/
def reportOf : Option Exc → WriteResult
  | none => ⟨true, []⟩
  | some exc => ⟨false, [exc]⟩

namespace RoutedSink

variable (s : RoutedSink T)

/-- A native batch writer is given the records of the group at once. -/
def writeNative (before : List T) (entries : List (ℕ × T)) (results : List WriteResult) :
    Answer (List WriteResult) :=
  match s.writeBatch before (entries.map Prod.snd) >>=
      (normalizeBatchWriteResults · entries.length) with
  | .ok writeResults =>
    .ok ((entries.zip writeResults).foldl (fun acc pair => noteResult acc pair.1.1 pair.2) results)
  | .error (.exception exc) =>
    .ok (entries.foldl (fun acc entry => noteResult acc entry.1 ⟨false, [exc]⟩) results)
  | .error .cancelled => .error .cancelled

/-- The writes of the group are gathered. -/
def writeGathered (before : List T) (entries : List (ℕ × T)) (results : List WriteResult) :
    Answer (List WriteResult) := do
  let errors ← s.writeEach before (entries.map Prod.snd)
  pure ((entries.zip errors).foldl (fun acc pair => noteResult acc pair.1.1 (reportOf pair.2))
    results)

/-- The records of the group are written one after the other. -/
def writeInTurn : List T → List (ℕ × T) → List WriteResult → Answer (List WriteResult)
  | _, [], results => .ok results
  | before, (index, record) :: entries, results =>
    match s.write before record with
    | .ok _ => writeInTurn (before ++ [record]) entries (noteResult results index (reportOf none))
    | .error (.exception exc) =>
      writeInTurn (before ++ [record]) entries (noteResult results index (reportOf (some exc)))
    | .error .cancelled => .error .cancelled

/-- The three ways to write the records of a sink. -/
def writeEntries (before : List T) (entries : List (ℕ × T)) (results : List WriteResult) :
    Answer (List WriteResult) :=
  if s.batchWritable then s.writeNative before entries results
  else if s.parallelWritesSafe && !s.orderedWritesRequired then
    s.writeGathered before entries results
  else s.writeInTurn before entries results

end RoutedSink

namespace SinkRouter

variable (r : SinkRouter T)

/-- The sink of the first route that matches. -/
def firstMatch (record : T) : List (SinkRoute T) → Except Exc (Option ℕ)
  | [] => .ok none
  | route :: routes => do
    if ← route.predicate record then pure (some route.sink) else firstMatch record routes

/-- The sink of a record, which is the default where no route matches. -/
def target (record : T) : Except Exc (Option ℕ) := do
  match ← firstMatch record r.routes with
  | some sink => pure (some sink)
  | none => pure r.default

/-- `SinkRouter.write`. -/
def write (given : Given T) (record : T) : Answer (WriteResult × Given T) :=
  match r.target record with
  | .error exc => .error (.exception exc)
  | .ok none => .ok (⟨false, []⟩, given)
  | .ok (some sink) =>
    match (r.sinks sink).write (given sink) record with
    | .ok _ => .ok (⟨true, []⟩, given.add sink [record])
    | .error (.exception exc) => .ok (⟨false, [exc]⟩, given.add sink [record])
    | .error .cancelled => .error .cancelled

/-- What the record path makes of `write`: an exception is the error of the record. -/
def writeOne (given : Given T) (record : T) : Answer (WriteResult × Given T) :=
  match r.write given record with
  | .error (.exception exc) => .ok (⟨false, [exc]⟩, given)
  | answer => answer

/-- The record path, one record after the other. -/
def writeRecords : Given T → List T → Answer (List WriteResult × Given T)
  | given, [] => .ok ([], given)
  | given, record :: records => do
    let (wr, given) ← r.writeOne given record
    let (results, given) ← writeRecords given records
    pure (wr :: results, given)

/-- A record with its position joins the group of its sink. -/
def groupRecord (grouped : OrderedDict ℕ (List (ℕ × T))) (entry : T × ℕ) :
    Except Exc (OrderedDict ℕ (List (ℕ × T))) := do
  match ← r.target entry.1 with
  | none => pure grouped
  | some sink => pure (grouped.append sink (entry.2, entry.1))

/-- The records with their positions, grouped by sink. -/
def groupRecords (records : List T) : Except Exc (OrderedDict ℕ (List (ℕ × T))) :=
  records.zipIdx.foldlM r.groupRecord .empty

/-- Write the records of one sink. -/
def writeGroup (state : List WriteResult × Given T) (group : ℕ × List (ℕ × T)) :
    Answer (List WriteResult × Given T) := do
  let results ← (r.sinks group.1).writeEntries (state.2 group.1) group.2 state.1
  pure (results, state.2.add group.1 (group.2.map Prod.snd))

/-- `SinkRouter.write_batch`. -/
def writeBatch (given : Given T) (records : List T) : Answer (List WriteResult × Given T) :=
  if records.isEmpty then .ok ([], given)
  else match r.groupRecords records with
    | .error exc => .error (.exception exc)
    | .ok grouped =>
      grouped.entries.foldlM r.writeGroup (List.replicate records.length ⟨false, []⟩, given)

end SinkRouter

end AgoraEtl
