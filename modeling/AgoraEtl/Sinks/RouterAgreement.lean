import AgoraEtl.Sinks.Router

/-!
# The batch path of a router agrees with its record path

Writing the records of one sink together is a step for each of them, whichever way it is done
(`writeEntries_eq`), and steps for different sinks and positions commute, so that going through the
groups is going through the records.  The two paths part where a predicate raises: the record path
counts it as the error of its record, and the batch path writes nothing at all.
-/

namespace AgoraEtl

variable {T : Type}

/-- A native batch writer that does to each record what `write` does to it, in order. -/
def Sink.ElementWise (s : Sink T) : Prop :=
  ∀ before records, (s.writeBatch before records >>=
    (normalizeBatchWriteResults · records.length)) =
      (fun errors => errors.map reportOf) <$> s.writeEach before records

/-- Only a cancellation stops the writes. -/
theorem Sink.writeEach_ne_exception (s : Sink T) (before records : List T) (exc : Exc) :
    s.writeEach before records ≠ .error (.exception exc) := by
  induction records generalizing before with
  | nil => exact fun h => nomatch h
  | cons record records ih =>
    have hrest := ih (before ++ [record])
    intro h
    unfold Sink.writeEach at h
    cases hanswer : s.writeEach (before ++ [record]) records with
    | error failure =>
      rw [hanswer] at h hrest
      split at h
      · exact nomatch h
      · exact hrest h
      · exact hrest h
    | ok errors =>
      rw [hanswer] at h
      split at h <;> exact nomatch h

namespace RoutedSink

variable {s : RoutedSink T}

/-- One write, noted at the position of its record. -/
def writeEntry (s : RoutedSink T) (before : List T) (entry : ℕ × T) (results : List WriteResult) :
    Answer (List WriteResult) :=
  match s.write before entry.2 with
  | .ok _ => .ok (noteResult results entry.1 (reportOf none))
  | .error (.exception exc) => .ok (noteResult results entry.1 (reportOf (some exc)))
  | .error .cancelled => .error .cancelled

/-- The writes of the group, one after the other. -/
theorem writeInTurn_cons (before : List T) (entry : ℕ × T) (entries : List (ℕ × T))
    (results : List WriteResult) :
    s.writeInTurn before (entry :: entries) results =
      s.writeEntry before entry results >>= s.writeInTurn (before ++ [entry.2]) entries := by
  obtain ⟨index, record⟩ := entry
  rw [writeInTurn, writeEntry]
  cases s.write before record with
  | ok value => rfl
  | error failure => cases failure <;> rfl

/-- Gathered writes do what writes in turn do. -/
theorem writeGathered_eq (before : List T) (entries : List (ℕ × T)) (results : List WriteResult) :
    s.writeGathered before entries results = s.writeInTurn before entries results := by
  induction entries generalizing before results with
  | nil => rfl
  | cons entry entries ih =>
    rw [writeInTurn_cons]
    unfold writeGathered at ih ⊢
    rw [List.map_cons, Sink.writeEach, writeEntry]
    cases s.write before entry.2 with
    | error failure =>
      cases failure with
      | cancelled => rfl
      | exception exc =>
        have hrest := ih (before ++ [entry.2]) (noteResult results entry.1 (reportOf (some exc)))
        change _ = s.writeInTurn (before ++ [entry.2]) entries _
        rw [← hrest]
        cases s.writeEach (before ++ [entry.2]) (entries.map Prod.snd) <;> rfl
    | ok value =>
      have hrest := ih (before ++ [entry.2]) (noteResult results entry.1 (reportOf none))
      change _ = s.writeInTurn (before ++ [entry.2]) entries _
      rw [← hrest]
      cases s.writeEach (before ++ [entry.2]) (entries.map Prod.snd) <;> rfl

/-- A native batch writer that treats each record on its own does what gathered writes do. -/
theorem writeNative_eq (helem : s.ElementWise) (before : List T) (entries : List (ℕ × T))
    (results : List WriteResult) :
    s.writeNative before entries results = s.writeGathered before entries results := by
  have hbatch := helem before (entries.map Prod.snd)
  rw [List.length_map] at hbatch
  unfold writeNative writeGathered
  rw [hbatch]
  cases hanswer : s.writeEach before (entries.map Prod.snd) with
  | error failure =>
    cases failure with
    | cancelled => rfl
    | exception exc => exact absurd hanswer (s.writeEach_ne_exception _ _ exc)
  | ok errors =>
    change Except.ok _ = Except.ok _
    rw [List.zip_map_right, List.foldl_map]
    rfl

/-- All three ways to write the records of a sink come to the same. -/
theorem writeEntries_eq (helem : s.batchWritable = true → s.ElementWise) (before : List T)
    (entries : List (ℕ × T)) (results : List WriteResult) :
    s.writeEntries before entries results = s.writeInTurn before entries results := by
  unfold writeEntries
  split
  next hnative => rw [writeNative_eq (helem hnative), writeGathered_eq]
  next =>
    split
    next => exact writeGathered_eq before entries results
    next => rfl

end RoutedSink

/-! ## Steps for different sinks -/

/-- Giving nothing changes nothing. -/
@[simp]
theorem Given.add_nil (given : Given T) (sink : ℕ) : given.add sink [] = given := by
  rw [Given.add, List.append_nil, Function.update_eq_self]

/-- What is given to a sink comes last. -/
@[simp]
theorem Given.add_self (given : Given T) (sink : ℕ) (records : List T) :
    given.add sink records sink = given sink ++ records := by
  rw [Given.add, Function.update_self]

/-- The other sinks are given nothing. -/
theorem Given.add_of_ne (given : Given T) {sink sink' : ℕ} (h : sink' ≠ sink) (records : List T) :
    given.add sink records sink' = given sink' := by
  rw [Given.add, Function.update_of_ne h]

/-- A sink may be given records in parts. -/
@[simp]
theorem Given.add_add (given : Given T) (sink : ℕ) (records records' : List T) :
    (given.add sink records).add sink records' = given.add sink (records ++ records') := by
  unfold Given.add
  rw [Function.update_idem, Function.update_self, List.append_assoc]

/-- Different sinks may be given records in either order. -/
theorem Given.add_comm (given : Given T) {sink sink' : ℕ} (h : sink ≠ sink')
    (records records' : List T) :
    (given.add sink records).add sink' records' = (given.add sink' records').add sink records := by
  unfold Given.add
  rw [Function.update_of_ne h.symm, Function.update_of_ne h, Function.update_comm h]

/-- Results of different records may be noted in either order. -/
theorem noteResult_comm (results : List WriteResult) {index index' : ℕ} (h : index ≠ index')
    (wr wr' : WriteResult) :
    noteResult (noteResult results index wr) index' wr' =
      noteResult (noteResult results index' wr') index wr :=
  List.modify_modify_ne _ _ results h

/-- A position after those that are settled. -/
theorem noteResult_append (done : List WriteResult) (old : WriteResult) (rest : List WriteResult)
    (wr : WriteResult) :
    noteResult (done ++ old :: rest) done.length wr =
      done ++ ⟨old.written || wr.written, old.errors ++ wr.errors⟩ :: rest := by
  unfold noteResult
  induction done with
  | nil => rw [List.nil_append, List.length_nil, List.modify_zero_cons, List.nil_append]
  | cons first done ih => rw [List.cons_append, List.length_cons, List.modify_succ_cons, ih,
      List.cons_append]

namespace SinkRouter

variable {r : SinkRouter T}

/-- One write of the batch path. -/
def writeStep (r : SinkRouter T) (sink : ℕ) (state : List WriteResult × Given T) (entry : ℕ × T) :
    Answer (List WriteResult × Given T) := do
  let results ← (r.sinks sink).writeEntry (state.2 sink) entry state.1
  pure (results, state.2.add sink [entry.2])

/-- The writes of a group, step by step. -/
theorem writeGroup_eq
    (helem : ∀ sink, (r.sinks sink).batchWritable = true → (r.sinks sink).ElementWise)
    (state : List WriteResult × Given T) (group : ℕ × List (ℕ × T)) :
    r.writeGroup state group = OrderedDict.runGroup r.writeStep state group := by
  obtain ⟨sink, entries⟩ := group
  unfold writeGroup OrderedDict.runGroup
  dsimp only
  rw [RoutedSink.writeEntries_eq (helem sink)]
  induction entries generalizing state with
  | nil =>
    rw [List.map_nil, Given.add_nil]
    rfl
  | cons entry entries ih =>
    rw [List.foldlM_cons, RoutedSink.writeInTurn_cons, writeStep, bind_assoc, bind_assoc]
    congr 1
    funext results
    have hrest := ih (results, state.2.add sink [entry.2])
    dsimp only at hrest
    rw [Given.add_self, Given.add_add] at hrest
    rw [pure_bind, ← hrest]
    rfl

/-- Writes to different sinks can change places. -/
theorem writeStep_comm {sink sink' : ℕ} (hsink : sink ≠ sink') {entry entry' : ℕ × T}
    (hindex : entry.1 ≠ entry'.1) (state : List WriteResult × Given T) :
    r.writeStep sink state entry >>= (r.writeStep sink' · entry') =
      r.writeStep sink' state entry' >>= (r.writeStep sink · entry) := by
  obtain ⟨results, given⟩ := state
  have hgiven := given.add_comm hsink [entry.2] [entry'.2]
  have hnote := fun wr wr' => noteResult_comm results hindex wr wr'
  simp only [writeStep, RoutedSink.writeEntry, bind_assoc, pure_bind, Given.add_of_ne _ hsink,
    Given.add_of_ne _ hsink.symm]
  cases (r.sinks sink).write (given sink) entry.2 with
  | error failure =>
    cases (r.sinks sink').write (given sink') entry'.2 with
    | error failure' =>
      cases failure <;> cases failure' <;> simp [bind, Except.bind, hgiven, hnote]
    | ok value' =>
      cases failure <;> simp [bind, Except.bind, hgiven, hnote]
  | ok value =>
    cases (r.sinks sink').write (given sink') entry'.2 with
    | error failure' =>
      cases failure' <;> simp [bind, Except.bind, hgiven, hnote]
    | ok value' =>
      simp [bind, Except.bind, hgiven, hnote]

/-! ## The two paths -/

/-- The write of a record at a position, under the sink that it goes to. -/
def entryOf (r : SinkRouter T) (entry : T × ℕ) : Option (ℕ × ℕ × T) :=
  match r.target entry.1 with
  | .ok (some sink) => some (sink, entry.2, entry.1)
  | _ => none

/-- Where no predicate raises, all records are grouped. -/
theorem groupRecords_eq {records : List T} (htarget : ∀ record ∈ records, ∃ sink?,
    r.target record = .ok sink?) :
    r.groupRecords records = .ok (.group (records.zipIdx.filterMap r.entryOf)) := by
  have hfold : ∀ (entries : List (T × ℕ)) (grouped : OrderedDict ℕ (List (ℕ × T))),
      (∀ entry ∈ entries, ∃ sink?, r.target entry.1 = .ok sink?) →
      entries.foldlM r.groupRecord grouped = .ok ((entries.filterMap r.entryOf).foldl
        (fun d entry => d.append entry.1 entry.2) grouped) := by
    intro entries
    induction entries with
    | nil => exact fun grouped h => rfl
    | cons entry entries ih =>
      intro grouped h
      obtain ⟨sink?, hsink⟩ := h entry List.mem_cons_self
      have hrest := fun grouped => ih grouped fun entry hmem => h entry (List.mem_cons_of_mem _ hmem)
      rw [List.foldlM_cons, groupRecord, List.filterMap_cons, entryOf, hsink]
      cases sink? with
      | none => exact hrest grouped
      | some sink => exact hrest (grouped.append sink (entry.2, entry.1))
  apply hfold
  intro entry hmem
  exact htarget entry.1 (List.fst_mem_of_mem_zipIdx hmem)

/-- Where a predicate raises, nothing is grouped. -/
theorem groupRecords_error {records : List T} {record : T} (hmem : record ∈ records) {exc : Exc}
    (htarget : r.target record = .error exc) : ∃ exc, r.groupRecords records = .error exc := by
  have hfold : ∀ (entries : List (T × ℕ)) (grouped : OrderedDict ℕ (List (ℕ × T))),
      (∃ entry ∈ entries, entry.1 = record) →
      ∃ exc, entries.foldlM r.groupRecord grouped = .error exc := by
    intro entries
    induction entries with
    | nil =>
      rintro grouped ⟨entry, hmem, -⟩
      exact absurd hmem List.not_mem_nil
    | cons entry entries ih =>
      rintro grouped ⟨entry', hmem, hrecord⟩
      rw [List.foldlM_cons, groupRecord]
      cases hanswer : r.target entry.1 with
      | error exc => exact ⟨exc, rfl⟩
      | ok sink? =>
        have hlater : entry' ∈ entries := by
          rcases List.mem_cons.mp hmem with rfl | hlater
          · rw [hrecord, htarget] at hanswer
            exact nomatch hanswer
          · exact hlater
        cases sink? with
        | none => exact ih grouped ⟨entry', hlater, hrecord⟩
        | some sink => exact ih _ ⟨entry', hlater, hrecord⟩
  rw [← List.zipIdx_map_fst 0 records] at hmem
  exact hfold _ _ (List.mem_map.mp hmem)

/-- The write of one record, at its position. -/
theorem foldlM_entryOf {record : T} (htarget : ∃ sink?, r.target record = .ok sink?)
    (done rest : List WriteResult) (given : Given T) :
    ([(record, done.length)].filterMap r.entryOf).foldlM
        (fun state entry => r.writeStep entry.1 state entry.2) (done ++ ⟨false, []⟩ :: rest, given) =
      (fun out => (done ++ out.1 :: rest, out.2)) <$> r.writeOne given record := by
  obtain ⟨sink?, hsink⟩ := htarget
  rw [List.filterMap_cons, entryOf, writeOne, write, hsink]
  cases sink? with
  | none => rfl
  | some sink =>
    dsimp only
    rw [List.filterMap_nil, List.foldlM_cons, writeStep, RoutedSink.writeEntry]
    dsimp only
    simp only [noteResult_append]
    cases (r.sinks sink).write (given sink) record with
    | ok value => rfl
    | error failure => cases failure <;> rfl

/-- The writes in the order of the records are the record path. -/
theorem foldlM_entries {records : List T} (htarget : ∀ record ∈ records, ∃ sink?,
    r.target record = .ok sink?) (done : List WriteResult) (given : Given T) :
    ((records.zipIdx done.length).filterMap r.entryOf).foldlM
        (fun state entry => r.writeStep entry.1 state entry.2)
        (done ++ List.replicate records.length ⟨false, []⟩, given) =
      (fun out => (done ++ out.1, out.2)) <$> r.writeRecords given records := by
  induction records generalizing done given with
  | nil => rfl
  | cons record records ih =>
    have hrest := fun done given => ih (fun record hmem => htarget record (List.mem_cons_of_mem _ hmem))
      done given
    have hone := foldlM_entryOf (htarget record List.mem_cons_self) done
      (List.replicate records.length ⟨false, []⟩) given
    have hsplit : (record, done.length) :: records.zipIdx (done.length + 1) =
        [(record, done.length)] ++ records.zipIdx (done.length + 1) := rfl
    rw [List.zipIdx_cons, hsplit, List.filterMap_append, List.foldlM_append, List.length_cons,
      List.replicate_succ, hone, writeRecords]
    cases r.writeOne given record with
    | error failure => rfl
    | ok out =>
      obtain ⟨wr, given'⟩ := out
      have hnext := hrest (done ++ [wr]) given'
      rw [List.length_append, List.length_singleton, List.append_assoc, List.singleton_append]
        at hnext
      change List.foldlM _ (done ++ wr :: List.replicate records.length ⟨false, []⟩, given') _ = _
      rw [hnext]
      cases hlater : r.writeRecords given' records with
      | error failure => simp [bind, Except.bind, hlater]
      | ok out' => simp [bind, Except.bind, hlater]; rfl

/-- The entries have distinct positions. -/
theorem pairwise_entries (records : List T) :
    (records.zipIdx.filterMap r.entryOf).Pairwise fun entry entry' => entry.2.1 ≠ entry'.2.1 := by
  have hindices : (records.zipIdx.map Prod.snd).Nodup := by
    rw [List.zipIdx_map_snd]
    exact List.nodup_range'
  rw [List.pairwise_filterMap]
  have hpositions : ∀ {entry : T × ℕ} {write : ℕ × ℕ × T}, r.entryOf entry = some write →
      write.2.1 = entry.2 := by
    intro entry write h
    unfold entryOf at h
    split at h
    · obtain rfl := Option.some.inj h
      rfl
    · exact nomatch h
  refine (List.pairwise_map.mp hindices).imp fun hne write hwrite write' hwrite' => ?_
  rw [hpositions hwrite, hpositions hwrite']
  exact hne

/-- Where no predicate raises, the two paths are the same. -/
theorem writeBatch_eq
    (helem : ∀ sink, (r.sinks sink).batchWritable = true → (r.sinks sink).ElementWise)
    {records : List T} (htarget : ∀ record ∈ records, ∃ sink?, r.target record = .ok sink?)
    (given : Given T) : r.writeBatch given records = r.writeRecords given records := by
  unfold writeBatch
  split
  next hempty =>
    rw [List.isEmpty_iff.mp hempty]
    rfl
  next =>
    have hgroups : r.writeGroup = OrderedDict.runGroup r.writeStep :=
      funext fun state => funext fun group => writeGroup_eq helem state group
    have hcomm : (records.zipIdx.filterMap r.entryOf).Pairwise fun entry entry' =>
        entry.1 ≠ entry'.1 → ∀ state,
          r.writeStep entry.1 state entry.2 >>= (r.writeStep entry'.1 · entry'.2) =
            r.writeStep entry'.1 state entry'.2 >>= (r.writeStep entry.1 · entry.2) :=
      (pairwise_entries records).imp fun hindex hsink state => writeStep_comm hsink hindex state
    have hentries := foldlM_entries htarget [] given
    rw [groupRecords_eq htarget]
    dsimp only
    rw [hgroups, OrderedDict.foldlM_group hcomm]
    simpa using hentries

/-- The record path is stopped by a cancellation only. -/
theorem writeRecords_ne_exception (given : Given T) (records : List T) (exc : Exc) :
    r.writeRecords given records ≠ .error (.exception exc) := by
  induction records generalizing given with
  | nil => exact fun h => nomatch h
  | cons record records ih =>
    intro h
    rw [writeRecords] at h
    cases hone : r.writeOne given record with
    | error failure =>
      rw [hone] at h
      obtain rfl : failure = .exception exc := Except.error.inj h
      unfold writeOne at hone
      split at hone
      next => exact nomatch hone
      next hnot => exact hnot exc hone
    | ok out =>
      rw [hone] at h
      cases hlater : r.writeRecords out.2 records with
      | error failure =>
        refine ih out.2 ?_
        rw [hlater]
        simpa [bind, Except.bind, hlater] using h
      | ok out' => simp [bind, Except.bind, hlater, pure, Except.pure] at h

/-- What the record path makes of one record is given to the sink of the record. -/
theorem writeOne_given {given given' : Given T} {record : T} {wr : WriteResult}
    (h : r.writeOne given record = .ok (wr, given')) (sink : ℕ) :
    given' sink = given sink ++ [record].filter fun record =>
      decide (r.target record = .ok (some sink)) := by
  unfold writeOne write at h
  cases htarget : r.target record with
  | error exc =>
    rw [htarget] at h
    cases h
    simp [htarget]
  | ok sink? =>
    rw [htarget] at h
    cases sink? with
    | none =>
      cases h
      simp [htarget]
    | some first =>
      have hgiven : given' = given.add first [record] := by
        dsimp only at h
        cases hanswer : (r.sinks first).write (given first) record with
        | ok value =>
          rw [hanswer] at h
          exact ((Prod.mk.inj (Except.ok.inj h)).2).symm
        | error failure =>
          rw [hanswer] at h
          cases failure with
          | cancelled => exact nomatch h
          | exception exc => exact ((Prod.mk.inj (Except.ok.inj h)).2).symm
      rw [hgiven]
      by_cases hsink : first = sink
      · subst hsink
        simp [htarget]
      · rw [Given.add_of_ne _ (Ne.symm hsink)]
        simp [htarget, hsink]

/-- On the record path each sink is given its records, in order. -/
theorem writeRecords_given {given given' : Given T} {records : List T} {results : List WriteResult}
    (h : r.writeRecords given records = .ok (results, given')) (sink : ℕ) :
    given' sink = given sink ++ records.filter fun record =>
      decide (r.target record = .ok (some sink)) := by
  induction records generalizing given results with
  | nil =>
    cases h
    rw [List.filter_nil, List.append_nil]
  | cons record records ih =>
    rw [writeRecords] at h
    cases hone : r.writeOne given record with
    | error failure =>
      rw [hone] at h
      exact nomatch h
    | ok out =>
      obtain ⟨wr, given₁⟩ := out
      rw [hone] at h
      cases hlater : r.writeRecords given₁ records with
      | error failure => simp [bind, Except.bind, hlater] at h
      | ok out' =>
        obtain ⟨later, given₂⟩ := out'
        have hpair : wr :: later = results ∧ given₂ = given' := by
          simpa [bind, Except.bind, hlater, pure, Except.pure] using h
        obtain ⟨-, rfl⟩ := hpair
        rw [ih hlater, writeOne_given hone, List.append_assoc, ← List.filter_append,
          List.singleton_append]

/-- A predicate that is asked about the record raises. -/
def PredicateRaises (r : SinkRouter T) (record : T) : Prop :=
  ∃ before route after exc, r.routes = before ++ route :: after ∧
    (∀ earlier ∈ before, earlier.predicate record = .ok false) ∧
      route.predicate record = .error exc

/-- The first route fails exactly if its predicate raises before one matches. -/
theorem firstMatch_error_iff {record : T} {routes : List (SinkRoute T)} :
    (∃ exc, firstMatch record routes = .error exc) ↔
      ∃ before route after exc, routes = before ++ route :: after ∧
        (∀ earlier ∈ before, earlier.predicate record = .ok false) ∧
          route.predicate record = .error exc := by
  induction routes with
  | nil =>
    constructor
    · rintro ⟨exc, h⟩
      exact nomatch h
    · rintro ⟨before, route, after, exc, h, -⟩
      simp at h
  | cons first routes ih =>
    rw [firstMatch]
    cases hfirst : first.predicate record with
    | error exc =>
      exact ⟨fun h => ⟨[], first, routes, exc, rfl, by simp, hfirst⟩, fun h => ⟨exc, rfl⟩⟩
    | ok holds =>
      cases holds with
      | true =>
        constructor
        · rintro ⟨exc, h⟩
          exact nomatch h
        · rintro ⟨before, route, after, exc, hroutes, hbefore, hraise⟩
          cases before with
          | nil =>
            obtain ⟨rfl, -⟩ := List.cons.inj hroutes
            rw [hfirst] at hraise
            exact nomatch hraise
          | cons first' before =>
            obtain ⟨rfl, -⟩ := List.cons.inj hroutes
            have hno := hbefore first List.mem_cons_self
            rw [hfirst] at hno
            exact nomatch hno
      | false =>
        change (∃ exc, firstMatch record routes = .error exc) ↔ _
        rw [ih]
        constructor
        · rintro ⟨before, route, after, exc, rfl, hbefore, hraise⟩
          exact ⟨first :: before, route, after, exc, rfl,
            List.forall_mem_cons.mpr ⟨hfirst, hbefore⟩, hraise⟩
        · rintro ⟨before, route, after, exc, hroutes, hbefore, hraise⟩
          cases before with
          | nil =>
            obtain ⟨rfl, -⟩ := List.cons.inj hroutes
            rw [hfirst] at hraise
            exact nomatch hraise
          | cons first' before =>
            obtain ⟨rfl, hrest⟩ := List.cons.inj hroutes
            exact ⟨before, route, after, exc, hrest, (List.forall_mem_cons.mp hbefore).2, hraise⟩

/-- The target of a record is found unless a predicate that is asked raises. -/
theorem target_ok_iff {record : T} :
    (∃ sink?, r.target record = .ok sink?) ↔ ¬ r.PredicateRaises record := by
  rw [PredicateRaises, ← firstMatch_error_iff]
  unfold target
  cases firstMatch record r.routes with
  | error exc => simp [bind, Except.bind]
  | ok sink? => cases sink? <;> simp [bind, Except.bind, pure, Except.pure]

/-- The batch path returns for each record what the record path makes of it, and gives each sink its
records in order, exactly where no predicate that is asked raises. -/
theorem writeBatch_agrees_iff
    (helem : ∀ sink, (r.sinks sink).batchWritable = true → (r.sinks sink).ElementWise)
    (given : Given T) (records : List T) :
    (r.writeBatch given records = r.writeRecords given records ∧
      ∀ results given', r.writeBatch given records = .ok (results, given') → ∀ sink,
        given' sink = given sink ++ records.filter fun record =>
          decide (r.target record = .ok (some sink))) ↔
      ∀ record ∈ records, ¬ r.PredicateRaises record := by
  constructor
  · rintro ⟨hsame, -⟩ record hmem
    rw [← target_ok_iff]
    cases htarget : r.target record with
    | ok sink? => exact ⟨sink?, rfl⟩
    | error exc =>
      obtain ⟨exc', hgroup⟩ := groupRecords_error hmem htarget
      have hbatch : r.writeBatch given records = .error (.exception exc') := by
        unfold writeBatch
        rw [if_neg fun hempty => List.ne_nil_of_mem hmem (List.isEmpty_iff.mp hempty), hgroup]
      rw [hbatch] at hsame
      exact absurd hsame.symm (writeRecords_ne_exception given records exc')
  · intro hraise
    have htarget : ∀ record ∈ records, ∃ sink?, r.target record = .ok sink? :=
      fun record hmem => target_ok_iff.mpr (hraise record hmem)
    have hsame := writeBatch_eq helem htarget given
    refine ⟨hsame, fun results given' h sink => ?_⟩
    rw [hsame] at h
    exact writeRecords_given h sink

/-- A sink that refuses one record. -/
def refusing (native parallel : Bool) (refused : ℕ) : RoutedSink ℕ where
  batchWritable := native
  arrowWritable := false
  flushEvery := none
  batchSize := none
  write _ record :=
    if record = refused then .error (.exception (.runtimeError "refused")) else .ok none
  writeBatch _ records := .ok (.results (records.map fun record =>
    reportOf (if record = refused then some (.runtimeError "refused") else none)))
  writeArrowBatch _ _ := .ok none
  parallelWritesSafe := parallel
  orderedWritesRequired := !parallel

/-- The refusing sink treats each record on its own. -/
theorem elementWise_refusing (native parallel : Bool) (refused : ℕ) :
    (refusing native parallel refused).ElementWise := by
  have heach : ∀ records before, (refusing native parallel refused).writeEach before records =
      .ok (records.map fun record =>
        if record = refused then some (Exc.runtimeError "refused") else none) := by
    intro records
    induction records with
    | nil => exact fun before => rfl
    | cons record records ih =>
      intro before
      rw [Sink.writeEach, ih (before ++ [record])]
      by_cases hrefused : record = refused
      · simp [refusing, hrefused]
      · simp [refusing, hrefused]
  intro before records
  rw [heach]
  simp [refusing, normalizeBatchWriteResults, bind, Except.bind, Functor.map, Except.map,
    Function.comp_def]

/-- A router with two routes to the same native sink, one to a sink that is written in parallel, and
another default. -/
def exampleRouter (bad : ℕ) : SinkRouter ℕ where
  routes := [⟨fun record => if record = bad then .error (.runtimeError "predicate") else
    .ok (decide (record < 3)), 0⟩, ⟨fun record => .ok (decide (record = 5)), 1⟩,
    ⟨fun record => .ok (decide (6 < record)), 0⟩]
  default := some 2
  sinks sink := refusing (decide (sink = 0)) (decide (sink = 1)) 8

/-- Five records for three sinks: the batch ends as the records do one by one. -/
theorem writeBatch_agrees_iff_example :
    (exampleRouter 9).writeBatch (fun _ => []) [7, 5, 1, 4, 8] =
      (exampleRouter 9).writeRecords (fun _ => []) [7, 5, 1, 4, 8] := by
  have hraise : ∀ record ∈ [7, 5, 1, 4, 8], ¬ (exampleRouter 9).PredicateRaises record := by
    intro record hmem
    simp only [List.mem_cons, List.not_mem_nil, or_false] at hmem
    rcases hmem with rfl | rfl | rfl | rfl | rfl <;> exact target_ok_iff.mp ⟨_, rfl⟩
  have hnative := fun sink (_ : ((exampleRouter 9).sinks sink).batchWritable = true) =>
    elementWise_refusing (decide (sink = 0)) (decide (sink = 1)) 8
  exact ((writeBatch_agrees_iff hnative (fun _ => []) [7, 5, 1, 4, 8]).mpr hraise).1

/-- A predicate that raises for the second record keeps the first one from being written, which the
record path writes. -/
theorem not_writeBatch_agrees_raising :
    (exampleRouter 4).writeBatch (fun _ => []) [5, 4] ≠
      (exampleRouter 4).writeRecords (fun _ => []) [5, 4] ∧
    (exampleRouter 4).writeBatch (fun _ => []) [5, 4] =
      .error (.exception (.runtimeError "predicate")) ∧
    ((exampleRouter 4).writeRecords (fun _ => []) [5, 4]).map Prod.fst =
      .ok [⟨true, []⟩, ⟨false, [.runtimeError "predicate"]⟩] := by
  have hbatch : (exampleRouter 4).writeBatch (fun _ => []) [5, 4] =
      .error (.exception (.runtimeError "predicate")) := rfl
  refine ⟨?_, hbatch, rfl⟩
  rw [hbatch]
  exact (writeRecords_ne_exception _ _ _).symm

end SinkRouter

end AgoraEtl
