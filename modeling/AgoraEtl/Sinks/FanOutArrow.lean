import AgoraEtl.Sinks.FanOutReports

/-!
# Arrow batches of a fan-out

A sink that does not take Arrow batches is given their rows in chunks.  `writeArrowBatch_eq_ok_iff`
says when the batch counts as written, and `reports_iff` when no false success is reported.
-/

namespace AgoraEtl

variable {T : Type}

/-! ## Arrow batches -/

/-- The result lets `write_arrow_batch` raise. -/
def Raises : Answer SinkResult → Prop
  | .error (.exception _) => True
  | .error .cancelled => False
  | .ok result => result.firstErrors ≠ none

namespace Sink

variable (s : Sink T)

/-- The writes of the records end with a failure that is looked at. -/
def FailsVisibly (before records : List T) : Prop :=
  if s.batchWritable then
    (∃ exc, s.batchAnswer before records = .error (.exception exc)) ∨
      ∃ writeResults, s.batchAnswer before records = .ok writeResults ∧
        ∃ wr ∈ writeResults, wr.errors ≠ []
  else ¬ s.Interrupted before records ∧
    ∃ i < records.length, ∃ exc, s.eachEnding before records i = .error (.exception exc)

/-- A failure that is looked at comes up in the chunks before the writes are cancelled. -/
def ShowsInChunks : List T → List (List T) → Prop
  | _, [] => False
  | before, chunk :: rest => s.FailsVisibly before chunk ∨
      (¬ s.Interrupted before chunk ∧ ShowsInChunks (before ++ chunk) rest)

/-- The writes of the chunks are cancelled before a failure that is looked at comes up. -/
def CutInChunks : List T → List (List T) → Prop
  | _, [] => False
  | before, chunk :: rest => s.Interrupted before chunk ∨
      (¬ s.FailsVisibly before chunk ∧ CutInChunks (before ++ chunk) rest)

/-- All records of the chunks are accepted. -/
def AcceptsChunks : List T → List (List T) → Prop
  | _, [] => True
  | before, chunk :: rest =>
    (∀ i < chunk.length, (s.ending before chunk i).accepted = true) ∧
      AcceptsChunks (before ++ chunk) rest

/-- The sink shows a failure of the Arrow batch. -/
def ShowsFailure (before rows : List T) : Prop :=
  if s.arrowWritable then ∃ exc, s.writeArrowBatch before rows = .error (.exception exc)
  else s.ShowsInChunks before (s.arrowChunks rows)

/-- The writes of the Arrow batch to the sink are cancelled. -/
def Cut (before rows : List T) : Prop :=
  if s.arrowWritable then s.writeArrowBatch before rows = .error .cancelled
  else s.CutInChunks before (s.arrowChunks rows)

/-- The sink accepts every row of the Arrow batch. -/
def AcceptsRows (before rows : List T) : Prop :=
  if s.arrowWritable then rows ≠ [] → (s.writeArrowBatch before rows).accepted = true
  else s.AcceptsChunks before (s.arrowChunks rows)

end Sink

namespace SinkResult

theorem firstErrors_writeResults_ne_none {results : List WriteResult} :
    (writeResults results).firstErrors ≠ none ↔ ∃ wr ∈ results, wr.errors ≠ [] := by
  change Option.map _ _ ≠ none ↔ _
  rw [ne_eq, Option.map_eq_none_iff, ← ne_eq, ← Option.isSome_iff_ne_none, List.find?_isSome]
  simp

theorem firstErrors_perRecordErrors_ne_none {errors : List (Option Exc)} :
    (perRecordErrors errors).firstErrors ≠ none ↔ ∃ exc, some exc ∈ errors := by
  change Option.map _ _ ≠ none ↔ _
  rw [ne_eq, Option.map_eq_none_iff, ← ne_eq, ← Option.isSome_iff_ne_none, List.findSome?_isSome_iff]
  constructor
  · rintro ⟨e, he, hsome⟩
    obtain ⟨exc, rfl⟩ := Option.isSome_iff_exists.mp hsome
    exact ⟨exc, he⟩
  · rintro ⟨exc, hexc⟩
    exact ⟨some exc, hexc, rfl⟩

/-- The errors that are found are not empty. -/
theorem ne_nil_of_firstErrors {result : SinkResult} {errors : List Exc}
    (h : result.firstErrors = some errors) : errors ≠ [] := by
  cases result with
  | writeResults results =>
    obtain ⟨wr, hfind, rfl⟩ := Option.map_eq_some_iff.mp h
    simpa using List.find?_some hfind
  | perRecordErrors perRecord =>
    obtain ⟨exc, -, rfl⟩ := Option.map_eq_some_iff.mp h
    exact List.cons_ne_nil _ _
  | other => cases h

theorem raiseFirst_eq_ok_iff {result : SinkResult} :
    result.raiseFirst = .ok () ↔ result.firstErrors = none := by
  unfold raiseFirst
  cases hfirst : result.firstErrors with
  | none => exact ⟨fun _ => rfl, fun _ => rfl⟩
  | some errors =>
    cases errors with
    | nil => exact absurd rfl (ne_nil_of_firstErrors hfirst)
    | cons exc errors => exact ⟨nofun, nofun⟩

end SinkResult

namespace Sink

variable {s : Sink T}

theorem raises_writeBatchToSink_iff (before records : List T) :
    Raises (s.writeBatchToSink before records) ↔ s.FailsVisibly before records := by
  unfold FailsVisibly
  by_cases hbatch : s.batchWritable = true
  · rw [if_pos hbatch, writeBatchToSink_native hbatch]
    cases s.batchAnswer before records with
    | ok writeResults =>
      refine SinkResult.firstErrors_writeResults_ne_none.trans ⟨fun h => .inr ⟨_, rfl, h⟩, ?_⟩
      rintro (⟨exc, h⟩ | ⟨writeResults', h, herrors⟩)
      · cases h
      · cases h
        exact herrors
    | error failure =>
      cases failure with
      | exception exc => exact ⟨fun _ => .inl ⟨exc, rfl⟩, fun _ => trivial⟩
      | cancelled =>
        refine ⟨False.elim, ?_⟩
        rintro (⟨exc, h⟩ | ⟨writeResults, h, -⟩)
        · cases h
        · cases h
  · rw [if_neg hbatch, writeBatchToSink_each hbatch]
    have htells := tellsEach_writeEach (s := s) before records
    have hinterrupted := (tellsBatch_each hbatch before records).cancelled
    cases hanswer : s.writeEach before records with
    | error failure =>
      rw [hanswer] at htells hinterrupted
      obtain ⟨rfl, -⟩ := htells
      exact ⟨False.elim, fun h => h.1 (hinterrupted.mp rfl)⟩
    | ok errors =>
      rw [hanswer] at htells hinterrupted
      obtain ⟨hlength, hat⟩ := htells
      refine SinkResult.firstErrors_perRecordErrors_ne_none.trans ⟨?_, ?_⟩
      · rintro ⟨exc, hexc⟩
        obtain ⟨i, hi, hget⟩ := List.getElem_of_mem hexc
        refine ⟨fun h => (nomatch hinterrupted.mpr h), i, hlength ▸ hi, exc, ?_⟩
        have hseen := (hat i (hlength ▸ hi)).2
        rw [resultAt, List.getElem?_eq_getElem hi, hget] at hseen
        cases heach : s.eachEnding before records i with
        | ok returned =>
          rw [heach] at hseen
          cases hseen
        | error failure =>
          rw [heach] at hseen
          cases failure with
          | exception exc' => exact hseen.symm
          | cancelled => cases hseen
      · rintro ⟨-, i, hi, exc, heach⟩
        have hi' : i < errors.length := hlength.symm ▸ hi
        have hseen := (hat i hi).2
        rw [heach, resultAt, List.getElem?_eq_getElem hi'] at hseen
        refine ⟨exc, ?_⟩
        cases hget : errors[i] with
        | none =>
          rw [hget] at hseen
          cases hseen
        | some exc' =>
          rw [hget] at hseen
          obtain rfl : exc' = exc := CallFailure.exception.inj (Except.error.inj hseen)
          rw [← hget]
          exact List.getElem_mem hi'

/-- The chunks that `_write_chunks` writes: a failure is shown, or the writes are cancelled. -/
theorem writeChunks_spec (before : List T) (rest : List (List T)) :
    (Raises (s.writeChunks before rest) ↔ s.ShowsInChunks before rest) ∧
      (s.writeChunks before rest = .error .cancelled ↔ s.CutInChunks before rest) := by
  induction rest generalizing before with
  | nil => exact ⟨⟨fun h => absurd rfl h, False.elim⟩, nofun, False.elim⟩
  | cons chunk rest ih =>
    obtain ⟨hshows, hcut⟩ := ih (before ++ chunk)
    have hraises := raises_writeBatchToSink_iff (s := s) before chunk
    have hcancelled := (tellsBatch_writeBatchToSink (s := s) before chunk).cancelled
    unfold writeChunks ShowsInChunks CutInChunks
    rw [← hraises, ← hcancelled]
    cases s.writeBatchToSink before chunk with
    | error failure =>
      cases failure with
      | exception exc =>
        refine ⟨⟨fun _ => .inl trivial, fun _ => trivial⟩, fun h => (nomatch Except.error.inj h), ?_⟩
        rintro (h | ⟨h, -⟩)
        · cases Except.error.inj h
        · exact absurd trivial h
      | cancelled =>
        exact ⟨⟨False.elim, fun h => h.elim id fun h => absurd rfl h.1⟩, fun _ => .inl rfl, fun _ => rfl⟩
    | ok result =>
      have hbind : ∀ k : SinkResult → Answer SinkResult, ((.ok result : Answer SinkResult) >>= k) = k result :=
        fun _ => rfl
      rw [hbind]
      cases hfirst : result.firstErrors with
      | some errors =>
        have hraise : Raises (.ok result) := fun hnone => by rw [hfirst] at hnone; cases hnone
        obtain ⟨exc, hexc⟩ := List.exists_mem_of_ne_nil _ (SinkResult.ne_nil_of_firstErrors hfirst)
        refine ⟨⟨fun _ => .inl hraise, fun _ => ?_⟩, nofun, ?_⟩
        · exact SinkResult.firstErrors_perRecordErrors_ne_none.mpr ⟨exc, List.mem_map_of_mem hexc⟩
        · rintro (h | ⟨h, -⟩)
          · cases h
          · exact absurd hraise h
      | none =>
        have hquiet : ¬ Raises (.ok result) := fun h => h hfirst
        refine ⟨hshows.trans ⟨fun h => .inr ⟨nofun, h⟩, ?_⟩, hcut.trans ⟨fun h => .inr ⟨hquiet, h⟩, ?_⟩⟩
        · rintro (h | ⟨-, h⟩)
          · exact absurd h hquiet
          · exact h
        · rintro (h | ⟨-, h⟩)
          · cases h
          · exact h

/-- The chunks that are written to a single sink. -/
theorem writeChunksRaising_eq_ok_iff (before : List T) (rest : List (List T)) :
    s.writeChunksRaising before rest = .ok () ↔
      ¬ s.ShowsInChunks before rest ∧ ¬ s.CutInChunks before rest := by
  induction rest generalizing before with
  | nil => exact ⟨fun _ => ⟨id, id⟩, fun _ => rfl⟩
  | cons chunk rest ih =>
    have hraises := raises_writeBatchToSink_iff (s := s) before chunk
    have hcancelled := (tellsBatch_writeBatchToSink (s := s) before chunk).cancelled
    unfold writeChunksRaising ShowsInChunks CutInChunks
    rw [← hraises, ← hcancelled]
    cases s.writeBatchToSink before chunk with
    | error failure =>
      cases failure with
      | exception exc => exact ⟨nofun, fun h => absurd (.inl trivial) h.1⟩
      | cancelled => exact ⟨nofun, fun h => absurd (.inl rfl) h.2⟩
    | ok result =>
      have hbind : ∀ k : SinkResult → Answer Unit, ((.ok result : Answer SinkResult) >>= k) = k result :=
        fun _ => rfl
      rw [hbind]
      by_cases hfirst : result.firstErrors = none
      · have hquiet : ¬ Raises (.ok result) := fun h => h hfirst
        rw [SinkResult.raiseFirst_eq_ok_iff.mpr hfirst]
        refine (ih _).trans ⟨fun h => ⟨?_, ?_⟩, fun h => ⟨fun hs => h.1 (.inr ⟨nofun, hs⟩),
          fun hc => h.2 (.inr ⟨hquiet, hc⟩)⟩⟩
        · rintro (hr | ⟨-, hs⟩)
          · exact hquiet hr
          · exact h.1 hs
        · rintro (hc | ⟨-, hc⟩)
          · cases hc
          · exact h.2 hc
      · refine ⟨fun h => absurd ?_ hfirst, fun h => absurd (.inl hfirst) h.1⟩
        cases hraise : result.raiseFirst with
        | ok u => exact SinkResult.raiseFirst_eq_ok_iff.mp hraise
        | error failure =>
          rw [hraise] at h
          cases h

/-- The call for one sink among several shows a failure, or is cancelled. -/
theorem arrowCall_spec (before rows : List T) :
    (Raises (s.arrowCall before rows) ↔ s.ShowsFailure before rows) ∧
      (s.arrowCall before rows = .error .cancelled ↔ s.Cut before rows) := by
  unfold arrowCall ShowsFailure Cut
  by_cases harrow : s.arrowWritable = true
  · rw [if_pos harrow, if_pos harrow, if_pos harrow]
    cases s.writeArrowBatch before rows with
    | ok returned => exact ⟨⟨fun h => absurd rfl h, fun ⟨_, h⟩ => (nomatch h)⟩, nofun, nofun⟩
    | error failure =>
      cases failure with
      | exception exc =>
        exact ⟨⟨fun _ => ⟨exc, rfl⟩, fun _ => trivial⟩, fun h => (nomatch Except.error.inj h),
          fun h => (nomatch Except.error.inj h)⟩
      | cancelled =>
        exact ⟨⟨False.elim, fun ⟨_, h⟩ => (nomatch Except.error.inj h)⟩, fun _ => rfl, fun _ => rfl⟩
  · rw [if_neg harrow, if_neg harrow, if_neg harrow]
    unfold arrowChunks
    by_cases hlength : rows.length ≤ s.arrowFallbackChunkSize
    · rw [if_pos hlength, if_pos hlength, raises_writeBatchToSink_iff,
        (tellsBatch_writeBatchToSink before rows).cancelled]
      refine ⟨⟨.inl, fun h => h.resolve_right And.right⟩, .inl, fun h => h.resolve_right And.right⟩
    · rw [if_neg hlength, if_neg hlength]
      exact writeChunks_spec before _

end Sink

namespace SinkFanOut

variable (f : SinkFanOut T)

theorem raiseFirstError_eq_ok_iff (results : List (Answer SinkResult)) :
    raiseFirstError results = .ok () ↔ ∀ result ∈ results, ¬ Raises result := by
  induction results with
  | nil => exact ⟨fun _ => nofun, fun _ => rfl⟩
  | cons result results ih =>
    rw [List.forall_mem_cons, ← ih]
    cases result with
    | error failure =>
      cases failure with
      | exception exc => exact ⟨nofun, fun h => absurd trivial h.1⟩
      | cancelled => exact ⟨fun h => ⟨id, h⟩, And.right⟩
    | ok result =>
      change (result.raiseFirst >>= fun _ => raiseFirstError results) = .ok () ↔
        ¬ result.firstErrors ≠ none ∧ _
      rw [not_not, ← SinkResult.raiseFirst_eq_ok_iff]
      cases result.raiseFirst with
      | ok u => exact ⟨fun h => ⟨rfl, h⟩, And.right⟩
      | error failure => exact ⟨nofun, nofun⟩

/-- `write_arrow_batch` returns exactly if no sink shows a failure, and none is cancelled unless the
calls are gathered. -/
theorem writeArrowBatch_eq_ok_iff (before rows : List T) :
    f.writeArrowBatch before rows = .ok () ↔
      ∀ s ∈ f.sinks, ¬ s.ShowsFailure before rows ∧ (f.gathers = false → ¬ s.Cut before rows) := by
  unfold writeArrowBatch
  split
  · rename_i sink hsinks hconcurrent
    have hgathers : f.gathers = false := by
      unfold gathers
      rw [hconcurrent]
      rfl
    simp only [hsinks, List.forall_mem_singleton, hgathers, true_implies]
    unfold Sink.ShowsFailure Sink.Cut
    by_cases harrow : sink.arrowWritable = true
    · rw [if_pos harrow, if_pos harrow, if_pos harrow]
      cases sink.writeArrowBatch before rows with
      | ok returned => exact ⟨fun _ => ⟨fun ⟨_, h⟩ => (nomatch h), nofun⟩, fun _ => rfl⟩
      | error failure =>
        cases failure with
        | exception exc => exact ⟨nofun, fun h => absurd ⟨exc, rfl⟩ h.1⟩
        | cancelled => exact ⟨nofun, fun h => absurd rfl h.2⟩
    · rw [if_neg harrow, if_neg harrow, if_neg harrow]
      exact Sink.writeChunksRaising_eq_ok_iff before _
  · have hshows : ∀ s : Sink T, ¬ Raises (s.arrowCall before rows) ↔ ¬ s.ShowsFailure before rows :=
      fun s => not_congr (Sink.arrowCall_spec before rows).1
    have hcut : .error .cancelled ∈ f.sinks.map (fun s => s.arrowCall before rows) ↔
        ∃ s ∈ f.sinks, s.Cut before rows := by
      rw [List.mem_map]
      exact exists_congr fun s => and_congr_right fun _ => (Sink.arrowCall_spec before rows).2
    obtain ⟨hgathers, hmem, hrun⟩ | ⟨hnot, hrun⟩ := awaitCalls_spec (f := f)
      (f.sinks.map fun s => s.arrowCall before rows)
    · rw [hrun]
      obtain ⟨s, hs, hscut⟩ := hcut.mp hmem
      exact ⟨nofun, fun h => absurd hscut ((h s hs).2 hgathers)⟩
    · rw [hrun]
      refine (raiseFirstError_eq_ok_iff _).trans ?_
      rw [List.forall_mem_map]
      refine forall₂_congr fun s hs => ?_
      rw [hshows]
      refine ⟨fun h => ⟨h, fun hgathers hscut => ?_⟩, And.left⟩
      rcases hnot with hg | hn
      · rw [hgathers] at hg
        cases hg
      · exact hn (hcut.mpr ⟨s, hs, hscut⟩)

/-- `write_arrow_batch` returns only if every sink has accepted every row. -/
def ReturnsOnlyIfAccepted (before rows : List T) : Prop :=
  f.writeArrowBatch before rows = .ok () → ∀ s ∈ f.sinks, s.AcceptsRows before rows

/-- The reports of a fan-out are true exactly if the endings that it does not look at are harmless:
`WriteResult`s returned by `sink.write`, and cancelled calls where the calls are gathered.  True reports
of a batch are those of its records written one by one.  An Arrow batch that returns was accepted
exactly if some sink shows a failure, or all sinks accept all rows. -/
theorem reports_iff (before : List T) (record : T) (records : List T) :
    (Reports (f.endings before record) (f.write before record) ↔
      (f.gathers = false ∧ .error .cancelled ∈ f.endings before record) ∨
      HarmlesslyOverlooked f.sinks (fun s => (s.write before record).unseen)
        fun s => s.write before record) ∧
    (f.ReportsBatch before records (f.writeBatch before records) ↔
      (f.batchGathers = false ∧ ∃ s ∈ f.sinks, s.Interrupted before records) ∨
      ∀ i < records.length, HarmlesslyOverlooked f.sinks (fun s => s.Overlooks before records i)
        fun s => s.ending before records i) ∧
    (∀ i < records.length, (∀ s ∈ f.sinks,
        s.ending before records i = s.write (before ++ records.take i) record) →
      ∀ results wr, f.writeBatch before records = .ok results →
        f.ReportsBatch before records (f.writeBatch before records) →
        f.write (before ++ records.take i) record = .ok wr →
        Reports (f.endings (before ++ records.take i) record)
          (f.write (before ++ records.take i) record) → results[i]? = some wr) ∧
    (f.ReturnsOnlyIfAccepted before records ↔
      (∃ s ∈ f.sinks, s.ShowsFailure before records ∨
        (f.gathers = false ∧ s.Cut before records)) ∨
      ∀ s ∈ f.sinks, s.AcceptsRows before records) := by
  refine ⟨f.reports_write_iff before record, f.reportsBatch_iff before records,
    fun i hi hsame results wr hbatch hreports hwrite hreport =>
      f.writeBatch_eq_write hi hsame hbatch hreports hwrite hreport, ?_⟩
  unfold ReturnsOnlyIfAccepted
  rw [writeArrowBatch_eq_ok_iff]
  constructor
  · intro h
    by_cases hall : ∀ s ∈ f.sinks, ¬ s.ShowsFailure before records ∧
        (f.gathers = false → ¬ s.Cut before records)
    · exact .inr (h hall)
    · push Not at hall
      obtain ⟨s, hs, hfails⟩ := hall
      refine .inl ⟨s, hs, ?_⟩
      by_cases hshows : s.ShowsFailure before records
      · exact .inl hshows
      · exact .inr (hfails hshows)
  · rintro (⟨s, hs, hfails⟩ | haccepts) hall
    · obtain ⟨hshows, hcut⟩ := hall s hs
      rcases hfails with h | ⟨hgathers, h⟩
      · exact absurd h hshows
      · exact absurd h (hcut hgathers)
    · exact haccepts

/-- A sink whose `write` ends in the same way for every record. -/
def alwaysEnding (e : Ending) : Sink ℕ where
  batchWritable := false
  arrowWritable := false
  flushEvery := none
  batchSize := none
  write _ _ := e
  writeBatch _ _ := .ok .nothing
  writeArrowBatch _ _ := .ok none

/-- A sink that returns `WriteResult(written=False)` is reported as a successful write, and so is one
whose gathered write is cancelled. -/
theorem not_reports_refused :
    ¬ Reports [.ok (some ⟨false, [.runtimeError "refused"]⟩)]
      ((⟨[alwaysEnding (.ok (some ⟨false, [.runtimeError "refused"]⟩))], by decide, false, none⟩ :
        SinkFanOut ℕ).write [] 7) ∧
    ¬ Reports [.error .cancelled]
      ((⟨[alwaysEnding (.error .cancelled)], by decide, true, none⟩ : SinkFanOut ℕ).write [] 7) := by
  constructor
  · intro h
    have hwritten : true = false := congrArg WriteResult.written h
    cases hwritten
  · intro h
    have hwritten : true = false := congrArg WriteResult.written h
    cases hwritten

end SinkFanOut

end AgoraEtl
