import AgoraEtl.Sinks.FanOut
import Mathlib.Algebra.Order.Ring.Nat
import Mathlib.Algebra.Order.BigOperators.Group.List

/-!
# The reports of a fan-out

The true report of a record says that it is written if some sink has accepted it, and lists the
failures of all sinks.  `reports_write_iff` and `reportsBatch_iff` say when the reports of a fan-out are
true: it does not look at what `sink.write` returns, and where the calls are gathered it takes a
cancelled call for a successful one.
-/

namespace AgoraEtl

variable {T α : Type}

/-! ## The report of a record -/

namespace Ending

/-- The sink has accepted the record. -/
def accepted : Ending → Bool
  | .ok none => true
  | .ok (some wr) => wr.written
  | .error _ => false

/-- The failures of the sink. -/
def failures : Ending → List Exc
  | .ok none => []
  | .ok (some wr) => wr.errors
  | .error (.exception exc) => [exc]
  | .error .cancelled => [.cancelled]

/-- What is seen of the call of `sink.write`: that it returned, or its exception. -/
def seen : Ending → Ending
  | .error (.exception exc) => .error (.exception exc)
  | _ => .ok none

/-- The ending of a call of `sink.write` is not looked at. -/
def unseen : Ending → Prop
  | .ok (some _) => True
  | .error .cancelled => True
  | _ => False

/-- Endings that are seen are reported as they are. -/
theorem seen_of_not_unseen {e : Ending} (h : ¬ e.unseen) : e.seen = e := by
  cases e with
  | ok returned =>
    cases returned with
    | none => rfl
    | some wr => exact absurd trivial h
  | error failure =>
    cases failure with
    | exception exc => rfl
    | cancelled => exact absurd trivial h

/-- The others look like a success. -/
theorem seen_of_unseen {e : Ending} (h : e.unseen) : e.seen = .ok none := by
  cases e with
  | ok returned => rfl
  | error failure =>
    cases failure with
    | exception exc => cases h
    | cancelled => rfl

end Ending

/-- The true report of a record: it is written if some sink has accepted it, and the failures of all
sinks stand in the order of the sinks. -/
def report (endings : List Ending) : WriteResult where
  written := endings.any Ending.accepted
  errors := endings.flatMap Ending.failures

section Report

variable {β : Type} {ending seen : β → Ending}

/-- Some endings are overlooked: none of them carries an error, and a record that was refused in one
of them was accepted by some sink. -/
structure HarmlesslyOverlooked (sinks : List β) (overlooked : β → Prop) (ending : β → Ending) :
    Prop where
  no_failures : ∀ s ∈ sinks, overlooked s → (ending s).failures = []
  accepted : ∀ s ∈ sinks, overlooked s → (ending s).accepted = false →
    ∃ s' ∈ sinks, (ending s').accepted = true

variable {overlooked : β → Prop} (hlooked : ∀ s, ¬ overlooked s → seen s = ending s)
  (hoverlooked : ∀ s, overlooked s → seen s = .ok none)

include hlooked hoverlooked

/-- No failure is added. -/
theorem length_failures_le (s : β) : (seen s).failures.length ≤ (ending s).failures.length := by
  by_cases hs : overlooked s
  · rw [hoverlooked s hs]
    exact Nat.zero_le _
  · rw [hlooked s hs]

/-- The listed failures are all failures exactly if the overlooked endings carry none. -/
theorem flatMap_failures_iff (sinks : List β) :
    sinks.flatMap (fun s => (seen s).failures) = sinks.flatMap (fun s => (ending s).failures) ↔
      ∀ s ∈ sinks, overlooked s → (ending s).failures = [] := by
  induction sinks with
  | nil => exact ⟨fun _ => nofun, fun _ => rfl⟩
  | cons s sinks ih =>
    rw [List.flatMap_cons, List.flatMap_cons, List.forall_mem_cons, ← ih]
    by_cases hs : overlooked s
    · rw [hoverlooked s hs]
      change [] ++ _ = _ ↔ _
      rw [List.nil_append]
      constructor
      · intro h
        have hlength := congrArg List.length h
        have hle : (sinks.flatMap fun s => (seen s).failures).length ≤
            (sinks.flatMap fun s => (ending s).failures).length := by
          rw [List.length_flatMap, List.length_flatMap]
          exact List.sum_le_sum fun s _ => length_failures_le hlooked hoverlooked s
        rw [List.length_append] at hlength
        have hnil : (ending s).failures = [] := List.length_eq_zero_iff.mp (by omega)
        rw [hnil, List.nil_append] at h
        exact ⟨fun _ => hnil, h⟩
      · rintro ⟨hnil, h⟩
        rw [hnil hs, List.nil_append, h]
    · rw [hlooked s hs, List.append_cancel_left_eq]
      exact ⟨fun h => ⟨fun hs' => absurd hs' hs, h⟩, And.right⟩

/-- The record counts as written if it was, or if the ending of some sink is overlooked. -/
theorem any_accepted_iff (sinks : List β) :
    (sinks.any fun s => (seen s).accepted) = true ↔
      ∃ s ∈ sinks, overlooked s ∨ (ending s).accepted = true := by
  rw [List.any_eq_true]
  refine exists_congr fun s => and_congr_right fun _ => ?_
  by_cases hs : overlooked s
  · rw [hoverlooked s hs]
    exact ⟨fun _ => .inl hs, fun _ => rfl⟩
  · rw [hlooked s hs]
    exact ⟨.inr, fun h => h.resolve_left hs⟩

/-- A report that takes the overlooked endings for plain returns is right exactly if they are
harmless. -/
theorem report_seen_iff (sinks : List β) :
    report (sinks.map seen) = report (sinks.map ending) ↔
      HarmlesslyOverlooked sinks overlooked ending := by
  have hwritten : (sinks.any fun s => (seen s).accepted) = (sinks.any fun s => (ending s).accepted) ↔
      ∀ s ∈ sinks, overlooked s → (ending s).accepted = false →
        ∃ s' ∈ sinks, (ending s').accepted = true := by
    rw [Bool.eq_iff_iff, any_accepted_iff hlooked hoverlooked, List.any_eq_true]
    constructor
    · intro h s hs hover _
      exact h.mp ⟨s, hs, .inl hover⟩
    · intro h
      constructor
      · rintro ⟨s, hs, hover | haccepted⟩
        · by_cases haccepted : (ending s).accepted = true
          · exact ⟨s, hs, haccepted⟩
          · exact h s hs hover (Bool.eq_false_iff.mpr haccepted)
        · exact ⟨s, hs, haccepted⟩
      · rintro ⟨s, hs, haccepted⟩
        exact ⟨s, hs, .inr haccepted⟩
  unfold report
  rw [WriteResult.mk.injEq, List.any_map, List.any_map, List.flatMap_map, List.flatMap_map]
  constructor
  · rintro ⟨hany, herrors⟩
    exact ⟨(flatMap_failures_iff hlooked hoverlooked sinks).mp herrors, hwritten.mp hany⟩
  · rintro ⟨hnone, haccepted⟩
    exact ⟨hwritten.mpr haccepted, (flatMap_failures_iff hlooked hoverlooked sinks).mpr hnone⟩

end Report

/-! ## What becomes of the records of a batch -/

namespace Sink

variable (s : Sink T) (before records : List T)

/-- What becomes of the record with the index when it is written on its own. -/
def eachEnding (i : ℕ) : Ending :=
  match records[i]? with
  | some record => s.write (before ++ records.take i) record
  | none => .ok none

/-- What becomes of the batch in a sink that takes batches. -/
def batchAnswer : Answer (List WriteResult) :=
  s.writeBatch before records >>= (normalizeBatchWriteResults · records.length)

/-- What becomes of the record with the index when the batch is given to the sink. -/
def ending (i : ℕ) : Ending :=
  if s.batchWritable then
    match s.batchAnswer before records with
    | .ok writeResults => .ok writeResults[i]?
    | .error failure => .error failure
  else s.eachEnding before records i

/-- The writes of the batch to the sink are cancelled. -/
def Interrupted : Prop :=
  if s.batchWritable then s.batchAnswer before records = .error .cancelled
  else ∃ i < records.length, s.eachEnding before records i = .error .cancelled

/-- The ending of the record is not looked at: the writes are cancelled, or `sink.write` returns a
`WriteResult`. -/
def Overlooks (i : ℕ) : Prop :=
  s.Interrupted before records ∨
    (s.batchWritable = false ∧ ∃ wr, s.ending before records i = .ok (some wr))

end Sink

/-- What a result says about the record with the index. -/
def resultAt (i : ℕ) : Answer SinkResult → Ending
  | .error (.exception exc) => .error (.exception exc)
  | .ok (.writeResults writeResults) => .ok writeResults[i]?
  | .ok (.perRecordErrors errors) =>
    match errors[i]? with
    | some (some exc) => .error (.exception exc)
    | _ => .ok none
  | _ => .ok none

/-- A list in the result has one entry for each record. -/
def Fits (n : ℕ) : Answer SinkResult → Prop
  | .ok (.writeResults writeResults) => writeResults.length = n
  | .ok (.perRecordErrors errors) => errors.length = n
  | _ => True

namespace Sink

variable {s : Sink T}

/-- Normalized results are as many as the records. -/
theorem length_of_normalize {result : BatchReturn} {n : ℕ} {writeResults : List WriteResult}
    (h : normalizeBatchWriteResults result n = .ok writeResults) : writeResults.length = n := by
  cases result with
  | nothing =>
    cases h
    exact List.length_replicate
  | results results =>
    unfold normalizeBatchWriteResults at h
    dsimp only at h
    split_ifs at h with hlength
    cases h
    exact not_not.mp hlength
  | other => cases h

/-- So are those that a batch is answered with. -/
theorem length_of_batchAnswer {before records : List T} {writeResults : List WriteResult}
    (h : s.batchAnswer before records = .ok writeResults) :
    writeResults.length = records.length := by
  unfold batchAnswer at h
  cases hanswer : s.writeBatch before records with
  | error failure =>
    rw [hanswer] at h
    cases h
  | ok result =>
    rw [hanswer] at h
    exact length_of_normalize h

/-- The first record is written first. -/
@[simp] theorem eachEnding_zero (before : List T) (record : T) (records : List T) :
    s.eachEnding before (record :: records) 0 = s.write before record := by
  simp [eachEnding]

/-- The others are written after it. -/
@[simp] theorem eachEnding_succ (before : List T) (record : T) (records : List T) (i : ℕ) :
    s.eachEnding before (record :: records) (i + 1) =
      s.eachEnding (before ++ [record]) records i := by
  simp [eachEnding]

end Sink

/-- What the records that are written one by one say about the endings. -/
def TellsEach (n : ℕ) (endings : ℕ → Ending) : Answer (List (Option Exc)) → Prop
  | .error failure => failure = .cancelled ∧ ∃ i < n, endings i = .error .cancelled
  | .ok errors => errors.length = n ∧ ∀ i < n, endings i ≠ .error .cancelled ∧
      resultAt i (.ok (.perRecordErrors errors)) = (endings i).seen

/-- The answer tells of the first record and of the others. -/
theorem TellsEach.cons {n : ℕ} {endings : ℕ → Ending} {e : Option Exc}
    {answer : Answer (List (Option Exc))} (hwrite : endings 0 ≠ .error .cancelled)
    (he : resultAt 0 (.ok (.perRecordErrors [e])) = (endings 0).seen)
    (h : TellsEach n (fun i => endings (i + 1)) answer) :
    TellsEach (n + 1) endings ((e :: ·) <$> answer) := by
  cases answer with
  | error failure =>
    obtain ⟨hfailure, i, hi, hcancelled⟩ := h
    exact ⟨hfailure, i + 1, Nat.succ_lt_succ hi, hcancelled⟩
  | ok errors =>
    obtain ⟨hlength, hat⟩ := h
    refine ⟨congrArg (· + 1) hlength, fun i hi => ?_⟩
    cases i with
    | zero => exact ⟨hwrite, he⟩
    | succ i => exact hat i (Nat.lt_of_succ_lt_succ hi)

namespace Sink

variable {s : Sink T}

/-- Writing records one by one: cancelled with one of the writes, and otherwise with the exceptions of
the records. -/
theorem tellsEach_writeEach (before records : List T) :
    TellsEach records.length (s.eachEnding before records) (s.writeEach before records) := by
  induction records generalizing before with
  | nil => exact ⟨rfl, nofun⟩
  | cons record records ih =>
    have hrest : TellsEach records.length
        (fun i => s.eachEnding before (record :: records) (i + 1))
        (s.writeEach (before ++ [record]) records) := by
      simp only [eachEnding_succ]
      exact ih _
    have hfirst := eachEnding_zero (s := s) before record records
    unfold writeEach
    cases hwrite : s.write before record with
    | ok returned =>
      rw [hwrite] at hfirst
      refine hrest.cons ?_ ?_
      · rw [hfirst]
        nofun
      · rw [hfirst]
        rfl
    | error failure =>
      rw [hwrite] at hfirst
      cases failure with
      | exception exc =>
        refine hrest.cons ?_ ?_
        · rw [hfirst]
          nofun
        · rw [hfirst]
          rfl
      | cancelled => exact ⟨rfl, 0, Nat.succ_pos _, hfirst⟩

/-- What the writes of a batch to one sink say about the endings: they are cancelled exactly if they
are interrupted, and otherwise tell the endings that are looked at. -/
structure TellsBatch (s : Sink T) (before records : List T) (answer : Answer SinkResult) :
    Prop where
  cancelled : answer = .error .cancelled ↔ s.Interrupted before records
  fits : Fits records.length answer
  looked : ∀ i < records.length, ¬ s.Overlooks before records i →
    resultAt i answer = s.ending before records i
  overlooked : ∀ i < records.length, s.Overlooks before records i → resultAt i answer = .ok none

/-- A sink that takes batches. -/
theorem tellsBatch_native (hbatch : s.batchWritable = true) (before records : List T) :
    TellsBatch s before records (.writeResults <$> s.batchAnswer before records) := by
  have hinterrupted : s.Interrupted before records ↔
      s.batchAnswer before records = .error .cancelled := by
    rw [Interrupted, if_pos hbatch]
  have hoverlooks : ∀ i, s.Overlooks before records i ↔
      s.batchAnswer before records = .error .cancelled := by
    intro i
    rw [← hinterrupted]
    constructor
    · rintro (h | ⟨hnot, -⟩)
      · exact h
      · rw [hbatch] at hnot
        cases hnot
    · exact .inl
  have hending : ∀ i, s.ending before records i = match s.batchAnswer before records with
      | .ok writeResults => .ok writeResults[i]?
      | .error failure => .error failure := by
    intro i
    rw [ending, if_pos hbatch]
  constructor
  · rw [hinterrupted]
    cases s.batchAnswer before records with
    | ok writeResults => exact ⟨nofun, nofun⟩
    | error failure => exact ⟨fun h => congrArg _ (Except.error.inj h),
        fun h => congrArg _ (Except.error.inj h)⟩
  · cases hanswer : s.batchAnswer before records with
    | ok writeResults => exact length_of_batchAnswer hanswer
    | error failure => cases failure <;> trivial
  · intro i hi hlooked
    rw [hoverlooks] at hlooked
    rw [hending]
    cases hanswer : s.batchAnswer before records with
    | ok writeResults => rfl
    | error failure =>
      cases failure with
      | exception exc => rfl
      | cancelled => exact absurd hanswer hlooked
  · intro i hi hover
    rw [(hoverlooks i).mp hover]
    rfl

/-- A sink that is given the records one by one. -/
theorem tellsBatch_each (hbatch : ¬ s.batchWritable = true) (before records : List T) :
    TellsBatch s before records (.perRecordErrors <$> s.writeEach before records) := by
  have hinterrupted : s.Interrupted before records ↔
      ∃ i < records.length, s.eachEnding before records i = .error .cancelled := by
    rw [Interrupted, if_neg hbatch]
  have hending : ∀ i, s.ending before records i = s.eachEnding before records i := by
    intro i
    rw [ending, if_neg hbatch]
  have htells := tellsEach_writeEach (s := s) before records
  cases hanswer : s.writeEach before records with
  | error failure =>
    rw [hanswer] at htells
    obtain ⟨rfl, hcancelled⟩ := htells
    have hall : s.Interrupted before records := hinterrupted.mpr hcancelled
    exact ⟨⟨fun _ => hall, fun _ => rfl⟩, trivial, fun i _ hlooked => absurd (.inl hall) hlooked,
      fun i _ _ => rfl⟩
  | ok errors =>
    rw [hanswer] at htells
    obtain ⟨hlength, hat⟩ := htells
    have hnone : ¬ s.Interrupted before records := by
      rw [hinterrupted]
      rintro ⟨i, hi, hcancelled⟩
      exact (hat i hi).1 hcancelled
    refine ⟨⟨nofun, fun h => absurd h hnone⟩, hlength, fun i hi hlooked => ?_, fun i hi hover => ?_⟩
    · refine (hat i hi).2.trans ?_
      rw [hending]
      cases heach : s.eachEnding before records i with
      | ok returned =>
        cases returned with
        | none => rfl
        | some wr =>
          exact absurd (.inr ⟨Bool.eq_false_iff.mpr hbatch, wr, (hending i).trans heach⟩) hlooked
      | error failure =>
        cases failure with
        | exception exc => rfl
        | cancelled => exact absurd heach (hat i hi).1
    · refine (hat i hi).2.trans ?_
      obtain h | ⟨-, wr, hwr⟩ := hover
      · exact absurd h hnone
      · rw [← hending, hwr]
        rfl

/-- A sink with a batch write is asked once. -/
theorem writeBatchToSink_native (hbatch : s.batchWritable = true) (before records : List T) :
    s.writeBatchToSink before records = .writeResults <$> s.batchAnswer before records := by
  unfold writeBatchToSink batchAnswer
  rw [if_pos hbatch]
  cases s.writeBatch before records with
  | ok result => rfl
  | error failure => rfl

/-- Any other one is asked record by record. -/
theorem writeBatchToSink_each (hbatch : ¬ s.batchWritable = true) (before records : List T) :
    s.writeBatchToSink before records = .perRecordErrors <$> s.writeEach before records := by
  unfold writeBatchToSink
  rw [if_neg hbatch]
  rfl

/-- What a sink answers to a batch tells how it ended. -/
theorem tellsBatch_writeBatchToSink (before records : List T) :
    TellsBatch s before records (s.writeBatchToSink before records) := by
  by_cases hbatch : s.batchWritable = true
  · rw [writeBatchToSink_native hbatch]
    exact tellsBatch_native hbatch before records
  · rw [writeBatchToSink_each hbatch]
    exact tellsBatch_each hbatch before records

end Sink

/-! ## Folding the results -/

/-- Fold one ending into the report of a record. -/
def note (wr : WriteResult) (e : Ending) : WriteResult :=
  ⟨wr.written || e.accepted, wr.errors ++ e.failures⟩

/-- The results of endings are gathered one by one. -/
theorem foldl_note (endings : List Ending) (wr : WriteResult) :
    endings.foldl note wr =
      ⟨wr.written || (report endings).written, wr.errors ++ (report endings).errors⟩ := by
  induction endings generalizing wr with
  | nil => simp [report]
  | cons e endings ih => simp [ih, note, report, Bool.or_assoc]

/-- Folding the result of one sink notes for each record what it says about it. -/
theorem foldResult_spec {n : ℕ} {acc : List WriteResult} {result : Answer SinkResult}
    (hfits : Fits n result) (hlength : acc.length = n) :
    (foldResult acc result).length = n ∧
      ∀ i < n, (foldResult acc result)[i]? = acc[i]?.map fun wr => note wr (resultAt i result) := by
  have hmap : ∀ (e : Ending) (g : WriteResult → WriteResult), (∀ wr, g wr = note wr e) →
      (acc.map g).length = n ∧ ∀ i < n, (acc.map g)[i]? = acc[i]?.map fun wr => note wr e := by
    intro e g hg
    refine ⟨(List.length_map g).trans hlength, fun i _ => ?_⟩
    rw [List.getElem?_map]
    exact congrArg (acc[i]?.map ·) (funext hg)
  cases result with
  | error failure =>
    cases failure with
    | exception exc =>
      exact hmap (.error (.exception exc)) _ fun wr => by simp [note, Ending.accepted, Ending.failures]
    | cancelled => exact hmap (.ok none) _ fun wr => by simp [note, Ending.accepted, Ending.failures]
  | ok result =>
    cases result with
    | other => exact hmap (.ok none) _ fun wr => by simp [note, Ending.accepted, Ending.failures]
    | writeResults writeResults =>
      have hfits' : writeResults.length = n := hfits
      refine ⟨?_, fun i hi => ?_⟩
      · rw [foldResult, List.length_zipWith, hlength, hfits', min_self]
      · have hi' : i < writeResults.length := hfits'.symm ▸ hi
        rw [foldResult, List.getElem?_zipWith, List.getElem?_eq_getElem (hlength.symm ▸ hi),
          List.getElem?_eq_getElem hi', resultAt, List.getElem?_eq_getElem hi']
        rfl
    | perRecordErrors errors =>
      have hfits' : errors.length = n := hfits
      refine ⟨?_, fun i hi => ?_⟩
      · rw [foldResult, List.length_zipWith, hlength, hfits', min_self]
      · have hi' : i < errors.length := hfits'.symm ▸ hi
        rw [foldResult, List.getElem?_zipWith, List.getElem?_eq_getElem (hlength.symm ▸ hi),
          List.getElem?_eq_getElem hi', resultAt, List.getElem?_eq_getElem hi']
        cases errors[i] with
        | none => simp [note, Ending.accepted, Ending.failures]
        | some exc => simp [note, Ending.accepted, Ending.failures]

/-- Folding the results of all sinks. -/
theorem foldl_foldResult_spec {n : ℕ} {results : List (Answer SinkResult)}
    (hfits : ∀ result ∈ results, Fits n result) {acc : List WriteResult} (hlength : acc.length = n) :
    (results.foldl foldResult acc).length = n ∧
      ∀ i < n, (results.foldl foldResult acc)[i]? =
        acc[i]?.map fun wr => (results.map (resultAt i)).foldl note wr := by
  induction results generalizing acc with
  | nil => exact ⟨hlength, fun i _ => by simp⟩
  | cons result results ih =>
    rw [List.forall_mem_cons] at hfits
    obtain ⟨hstep, hat⟩ := foldResult_spec hfits.1 hlength
    obtain ⟨hrest, hat'⟩ := ih hfits.2 hstep
    refine ⟨hrest, fun i hi => ?_⟩
    rw [List.foldl_cons, hat' i hi, hat i hi, Option.map_map]
    rfl

/-- From empty results, folding gives the reports of what the results say. -/
theorem foldl_foldResult_eq {n : ℕ} {results : List (Answer SinkResult)}
    (hfits : ∀ result ∈ results, Fits n result) :
    results.foldl foldResult (List.replicate n ⟨false, []⟩) =
      (List.range n).map fun i => report (results.map (resultAt i)) := by
  have hstart : (List.replicate n (⟨false, []⟩ : WriteResult)).length = n := List.length_replicate
  obtain ⟨hlength, hat⟩ := foldl_foldResult_spec hfits hstart
  refine List.ext_getElem? fun i => ?_
  by_cases hi : i < n
  · rw [hat i hi, List.getElem?_replicate, if_pos hi, List.getElem?_map,
      List.getElem?_range hi, Option.map_some, Option.map_some, foldl_note]
    simp
  · rw [List.getElem?_eq_none (by omega), List.getElem?_eq_none (by simpa using hi)]

/-! ## The reports of a fan-out -/

/-- The answer reports truly what becomes of a record; it may instead pass on a cancellation. -/
def Reports (endings : List Ending) : Answer WriteResult → Prop
  | .ok wr => wr = report endings
  | .error failure => failure = .cancelled ∧ .error .cancelled ∈ endings

namespace SinkFanOut

variable (f : SinkFanOut T)

/-- The calls of the sinks are gathered as concurrent tasks. -/
def gathers : Bool := f.concurrentWrites && decide (f.maxConcurrency ≠ some 1)

/-- What becomes of the writes of a record. -/
def endings (before : List T) (record : T) : List Ending :=
  f.sinks.map fun s => s.write before record

/-- The answer to a batch reports truly what becomes of each of its records. -/
def ReportsBatch (before records : List T) : Answer (List WriteResult) → Prop
  | .ok results => results = (List.range records.length).map fun i =>
      report (f.sinks.map fun s => s.ending before records i)
  | .error failure => failure = .cancelled ∧ ∃ s ∈ f.sinks, s.Interrupted before records

/-- The writes of a batch are gathered; a batch for a single sink that takes batches is not. -/
def batchGathers : Bool :=
  f.gathers && !(match f.sinks with
    | [sink] => sink.batchWritable
    | _ => false)

section Calls

variable {f}

/-- Calls are gathered unless one of them is cancelled. -/
theorem mapM_caught (calls : List (Answer α)) :
    (.error .cancelled ∈ calls ∧ calls.mapM caught = .error .cancelled) ∨
      (.error .cancelled ∉ calls ∧ calls.mapM caught = .ok calls) := by
  induction calls with
  | nil => exact .inr ⟨nofun, rfl⟩
  | cons call calls ih =>
    have hcons : caught call = .ok call → call ≠ .error .cancelled →
        (.error .cancelled ∈ call :: calls ∧ (call :: calls).mapM caught = .error .cancelled) ∨
          (.error .cancelled ∉ call :: calls ∧ (call :: calls).mapM caught = .ok (call :: calls)) := by
      intro hcall hne
      rw [List.mapM_cons, hcall]
      obtain ⟨hmem, hrun⟩ | ⟨hmem, hrun⟩ := ih
      · rw [hrun]
        exact .inl ⟨List.mem_cons_of_mem _ hmem, rfl⟩
      · rw [hrun]
        exact .inr ⟨fun h => (List.mem_cons.mp h).elim (fun h => hne h.symm) hmem, rfl⟩
    cases call with
    | ok a => exact hcons rfl nofun
    | error failure =>
      cases failure with
      | exception exc => exact hcons rfl fun h => nomatch Except.error.inj h
      | cancelled => exact .inl ⟨List.mem_cons_self, by rw [List.mapM_cons]; rfl⟩

/-- Without gathering, a cancelled call cancels the whole; all other calls are kept as they end. -/
theorem awaitCalls_spec (calls : List (Answer α)) :
    (f.gathers = false ∧ .error .cancelled ∈ calls ∧ f.awaitCalls calls = .error .cancelled) ∨
      ((f.gathers = true ∨ .error .cancelled ∉ calls) ∧ f.awaitCalls calls = .ok calls) := by
  unfold awaitCalls runSinkCalls gathers
  cases f.concurrentWrites with
  | false =>
    obtain ⟨hmem, hrun⟩ | ⟨hmem, hrun⟩ := mapM_caught calls
    · exact .inl ⟨rfl, hmem, hrun⟩
    · exact .inr ⟨.inr hmem, hrun⟩
  | true =>
    by_cases hone : f.maxConcurrency = some 1
    · obtain ⟨hmem, hrun⟩ | ⟨hmem, hrun⟩ := mapM_caught calls
      · exact .inl ⟨by simp [hone], hmem, by simpa [hone] using hrun⟩
      · exact .inr ⟨.inr hmem, by simpa [hone] using hrun⟩
    · exact .inr ⟨.inl (by simp [hone]), by simp [hone]⟩

end Calls

/-! ### `write` -/

/-- Counting answers is reporting what is seen of them. -/
theorem countAnswers_eq (endings : List Ending) :
    countAnswers endings = report (endings.map Ending.seen) := by
  unfold countAnswers report
  rw [List.any_map, List.flatMap_map]
  congr 1
  · refine congrArg (List.any endings) (funext fun e => ?_)
    cases e with
    | ok returned => rfl
    | error failure => cases failure <;> rfl
  · induction endings with
    | nil => rfl
    | cons e endings ih =>
      rw [List.filterMap_cons, List.flatMap_cons, ← ih]
      cases e with
      | ok returned => rfl
      | error failure => cases failure <;> rfl

/-- The path for a single sink does what the general path does. -/
theorem write_eq (before : List T) (record : T) :
    f.write before record = (do
      let results ← f.awaitCalls (f.endings before record)
      pure (countAnswers results)) := by
  unfold write endings
  split
  · rename_i sink hsinks hconcurrent
    rw [hsinks, List.map_singleton, awaitCalls, hconcurrent, if_neg (by simp)]
    cases sink.write before record with
    | ok returned => rfl
    | error failure => cases failure <;> rfl
  · rfl

/-- `write` reports what is seen of the calls, unless a cancellation passes through. -/
theorem write_spec (before : List T) (record : T) :
    (f.gathers = false ∧ .error .cancelled ∈ f.endings before record ∧
        f.write before record = .error .cancelled) ∨
      ((f.gathers = true ∨ .error .cancelled ∉ f.endings before record) ∧
        f.write before record = .ok (report ((f.endings before record).map Ending.seen))) := by
  rw [write_eq, ← countAnswers_eq]
  obtain ⟨hgathers, hmem, hrun⟩ | ⟨hnot, hrun⟩ := awaitCalls_spec (f := f) (f.endings before record)
  · rw [hrun]
    exact .inl ⟨hgathers, hmem, rfl⟩
  · rw [hrun]
    exact .inr ⟨hnot, rfl⟩

/-- The reports of `write` are true exactly if a cancellation passes through, or the endings that are
not looked at are harmless: the `WriteResult`s that `sink.write` returns, and the cancelled calls. -/
theorem reports_write_iff (before : List T) (record : T) :
    Reports (f.endings before record) (f.write before record) ↔
      (f.gathers = false ∧ .error .cancelled ∈ f.endings before record) ∨
      HarmlesslyOverlooked f.sinks (fun s => (s.write before record).unseen)
        fun s => s.write before record := by
  have hreport : report (f.sinks.map fun s => (s.write before record).seen) =
        report (f.sinks.map fun s => s.write before record) ↔
      HarmlesslyOverlooked f.sinks (fun s => (s.write before record).unseen)
        fun s => s.write before record :=
    report_seen_iff (fun s => Ending.seen_of_not_unseen) (fun s => Ending.seen_of_unseen) f.sinks
  have hmap : (f.endings before record).map Ending.seen =
      f.sinks.map fun s => (s.write before record).seen := List.map_map
  rw [← hreport, ← hmap]
  obtain ⟨hgathers, hmem, hrun⟩ | ⟨hnot, hrun⟩ := write_spec (f := f) before record
  · rw [hrun]
    exact ⟨fun _ => .inl ⟨hgathers, hmem⟩, fun _ => ⟨rfl, hmem⟩⟩
  · rw [hrun]
    refine ⟨.inr, fun h => h.resolve_left ?_⟩
    rintro ⟨hgathers, hmem⟩
    rcases hnot with hg | hn
    · rw [hgathers] at hg
      cases hg
    · exact hn hmem

/-! ### `write_batch` -/

/-- What the results of the sinks say about the records of a batch. -/
def batchReports (before records : List T) : List WriteResult :=
  (List.range records.length).map fun i =>
    report (f.sinks.map fun s => resultAt i (s.writeBatchToSink before records))

/-- The writes of a batch end with a cancellation, or with what the results of the sinks say. -/
def TellsReports (gathers : Bool) (before records : List T) (answer : Answer (List WriteResult)) :
    Prop :=
  (gathers = false ∧ (∃ s ∈ f.sinks, s.Interrupted before records) ∧ answer = .error .cancelled) ∨
    ((gathers = true ∨ ¬ ∃ s ∈ f.sinks, s.Interrupted before records) ∧
      answer = .ok (f.batchReports before records))

/-- What all sinks answer to a batch tells how they ended. -/
theorem tellsReports_writeBatchToAll (before records : List T) :
    f.TellsReports f.gathers before records (f.writeBatchToAll before records) := by
  have hmem : .error .cancelled ∈ f.sinks.map (fun s => s.writeBatchToSink before records) ↔
      ∃ s ∈ f.sinks, s.Interrupted before records := by
    rw [List.mem_map]
    exact exists_congr fun s => and_congr_right fun _ =>
      (Sink.tellsBatch_writeBatchToSink before records).cancelled
  unfold TellsReports
  rw [← hmem, writeBatchToAll]
  obtain ⟨hgathers, hcancelled, hrun⟩ | ⟨hnot, hrun⟩ := awaitCalls_spec (f := f)
    (f.sinks.map fun s => s.writeBatchToSink before records)
  · rw [hrun]
    exact .inl ⟨hgathers, hcancelled, rfl⟩
  · rw [hrun]
    refine .inr ⟨hnot, ?_⟩
    have hfits : ∀ result ∈ f.sinks.map (fun s => s.writeBatchToSink before records),
        Fits records.length result := by
      intro result hresult
      obtain ⟨s, -, rfl⟩ := List.mem_map.mp hresult
      exact (Sink.tellsBatch_writeBatchToSink before records).fits
    have hfold := foldl_foldResult_eq hfits
    simp only [List.map_map, Function.comp_def] at hfold
    exact congrArg Except.ok hfold

/-- What `write_batch` makes of the answer of a single sink that takes batches. -/
def nativeReports (count : ℕ) : Answer (List WriteResult) → Answer (List WriteResult)
  | .ok writeResults => .ok writeResults
  | .error (.exception exc) => .ok (List.replicate count ⟨false, [exc]⟩)
  | .error .cancelled => .error .cancelled

/-- A single sink that takes batches. -/
theorem tellsReports_native {sink : Sink T} (hsinks : f.sinks = [sink])
    (hbatch : sink.batchWritable = true) {records : List T} (hrecords : records ≠ [])
    (before : List T) :
    f.TellsReports false before records (f.writeBatch before records) := by
  have hinterrupted : (∃ s ∈ f.sinks, s.Interrupted before records) ↔
      sink.batchAnswer before records = .error .cancelled := by
    simp only [hsinks, List.mem_singleton, exists_eq_left, Sink.Interrupted, if_pos hbatch]
  have hcall : f.writeBatch before records =
      nativeReports records.length (sink.batchAnswer before records) := by
    unfold writeBatch Sink.batchAnswer
    rw [if_neg (by simpa using hrecords), hsinks]
    dsimp only
    refine (if_pos hbatch).trans ?_
    generalize sink.writeBatch before records >>= (normalizeBatchWriteResults · records.length) = answer
    cases answer with
    | ok writeResults => rfl
    | error failure => cases failure <;> rfl
  have hreports : f.batchReports before records = (List.range records.length).map fun i =>
      report [resultAt i (.writeResults <$> sink.batchAnswer before records)] := by
    unfold batchReports
    rw [hsinks, ← Sink.writeBatchToSink_native hbatch]
    rfl
  unfold TellsReports
  rw [hinterrupted, hcall, hreports]
  cases hanswer : sink.batchAnswer before records with
  | error failure =>
    cases failure with
    | cancelled => exact .inl ⟨rfl, rfl, rfl⟩
    | exception exc =>
      refine .inr ⟨.inr (by simp), congrArg Except.ok ?_⟩
      change _ = (List.range records.length).map fun _ => (⟨false, [exc]⟩ : WriteResult)
      rw [List.map_const', List.length_range]
  | ok writeResults =>
    refine .inr ⟨.inr (by simp), congrArg Except.ok ?_⟩
    have hlength := Sink.length_of_batchAnswer hanswer
    refine List.ext_getElem? fun i => ?_
    by_cases hi : i < writeResults.length
    · have hreport : ∀ wr : WriteResult, wr = report [.ok (some wr)] := fun wr => by
        simp [report, Ending.accepted, Ending.failures]
      change _ = ((List.range records.length).map fun i => report [.ok writeResults[i]?])[i]?
      rw [List.getElem?_map, List.getElem?_range (hlength ▸ hi), List.getElem?_eq_getElem hi,
        Option.map_some, List.getElem?_eq_getElem hi]
      exact congrArg some (hreport _)
    · rw [List.getElem?_eq_none (by omega), List.getElem?_eq_none (by simpa [← hlength] using hi)]

/-- A single sink that is given the records one by one, without concurrency. -/
theorem writeBatch_single {sink : Sink T} (hsinks : f.sinks = [sink])
    (hbatch : ¬ sink.batchWritable = true) (hconcurrent : f.concurrentWrites = false)
    {records : List T} (hrecords : records ≠ []) (before : List T) :
    f.writeBatch before records = f.writeBatchToAll before records := by
  have htells := Sink.tellsEach_writeEach (s := sink) before records
  unfold writeBatch writeBatchToAll awaitCalls
  rw [if_neg (by simpa using hrecords), hsinks]
  dsimp only
  rw [if_neg hbatch, if_pos hconcurrent, if_neg (by simp [hconcurrent]),
    List.map_singleton, Sink.writeBatchToSink_each hbatch]
  cases hanswer : sink.writeEach before records with
  | error failure =>
    rw [hanswer] at htells
    rw [htells.1]
    rfl
  | ok errors =>
    rw [hanswer] at htells
    refine congrArg Except.ok ?_
    change _ = (List.replicate records.length (⟨false, []⟩ : WriteResult)).zipWith _ errors
    rw [← htells.1]
    clear htells hanswer
    induction errors with
    | nil => rfl
    | cons e errors ih =>
      rw [List.map_cons, List.length_cons, List.replicate_succ, List.zipWith_cons_cons, ← ih]
      cases e with
      | none => rfl
      | some exc => rfl

/-- So does what the fan-out answers. -/
theorem tellsReports_writeBatch {records : List T} (hrecords : records ≠ []) (before : List T) :
    f.TellsReports f.batchGathers before records (f.writeBatch before records) := by
  have hempty : ¬ records.isEmpty = true := by simpa using hrecords
  have hall := tellsReports_writeBatchToAll f before records
  unfold batchGathers
  cases hsinks : f.sinks with
  | nil => exact absurd hsinks f.sinks_ne_nil
  | cons sink sinks =>
    cases sinks with
    | cons sink' sinks =>
      have hcall : f.writeBatch before records = f.writeBatchToAll before records := by
        unfold writeBatch
        rw [if_neg hempty, hsinks]
      rw [hcall]
      simpa using hall
    | nil =>
      by_cases hbatch : sink.batchWritable = true
      · have hnative := tellsReports_native f hsinks hbatch hrecords before
        simpa [hbatch] using hnative
      · have hcall : f.writeBatch before records = f.writeBatchToAll before records := by
          by_cases hconcurrent : f.concurrentWrites = false
          · exact writeBatch_single f hsinks hbatch hconcurrent hrecords before
          · unfold writeBatch
            rw [if_neg hempty, hsinks]
            dsimp only
            rw [if_neg hbatch, if_neg hconcurrent]
        rw [hcall]
        simpa [hbatch] using hall

/-- The reports of `write_batch` are true exactly if a cancellation passes through, or for each record
the endings that are not looked at are harmless. -/
theorem reportsBatch_iff (before records : List T) :
    f.ReportsBatch before records (f.writeBatch before records) ↔
      (f.batchGathers = false ∧ ∃ s ∈ f.sinks, s.Interrupted before records) ∨
      ∀ i < records.length, HarmlesslyOverlooked f.sinks (fun s => s.Overlooks before records i)
        fun s => s.ending before records i := by
  by_cases hrecords : records = []
  · subst hrecords
    exact ⟨fun _ => .inr nofun, fun _ => rfl⟩
  have htrue : f.batchReports before records = (List.range records.length).map (fun i =>
        report (f.sinks.map fun s => s.ending before records i)) ↔
      ∀ i < records.length, HarmlesslyOverlooked f.sinks (fun s => s.Overlooks before records i)
        fun s => s.ending before records i := by
    unfold batchReports
    rw [List.map_inj_left]
    refine forall_congr' fun i => ?_
    rw [List.mem_range]
    refine imp_congr_right fun hi => ?_
    exact report_seen_iff
      (fun s => (Sink.tellsBatch_writeBatchToSink (s := s) before records).looked i hi)
      (fun s => (Sink.tellsBatch_writeBatchToSink (s := s) before records).overlooked i hi) f.sinks
  obtain ⟨hgathers, hinterrupted, hrun⟩ | ⟨hnot, hrun⟩ := tellsReports_writeBatch f hrecords before
  · rw [hrun]
    exact ⟨fun _ => .inl ⟨hgathers, hinterrupted⟩, fun _ => ⟨rfl, hinterrupted⟩⟩
  · rw [hrun, ← htrue]
    refine ⟨.inr, fun h => h.resolve_left ?_⟩
    rintro ⟨hgathers, hinterrupted⟩
    rcases hnot with hg | hn
    · rw [hgathers] at hg
      cases hg
    · exact hn hinterrupted

/-- True reports of a batch are those of its records written one by one, if each sink makes of a record
in the batch what it makes of the record alone. -/
theorem writeBatch_eq_write {before records : List T} {i : ℕ} {record : T} (hi : i < records.length)
    (hsame : ∀ s ∈ f.sinks,
      s.ending before records i = s.write (before ++ records.take i) record)
    {results : List WriteResult} (hbatch : f.writeBatch before records = .ok results)
    (hreports : f.ReportsBatch before records (f.writeBatch before records)) {wr : WriteResult}
    (hwrite : f.write (before ++ records.take i) record = .ok wr)
    (hreport : Reports (f.endings (before ++ records.take i) record)
      (f.write (before ++ records.take i) record)) :
    results[i]? = some wr := by
  rw [hbatch] at hreports
  rw [hwrite] at hreport
  have hresults : results = (List.range records.length).map fun i =>
    report (f.sinks.map fun s => s.ending before records i) := hreports
  have hwr : wr = report (f.endings (before ++ records.take i) record) := hreport
  have hendings : f.sinks.map (fun s => s.ending before records i) =
      f.endings (before ++ records.take i) record := List.map_congr_left hsame
  rw [hresults, hwr, List.getElem?_map, List.getElem?_range hi, Option.map_some, hendings]

end SinkFanOut

end AgoraEtl
