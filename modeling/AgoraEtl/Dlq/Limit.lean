import AgoraEtl.Dlq.Store

/-!
# Limited reads of the dead-letter store

`_fetch_rows` applies the limit to the rows that match the filters, and `stream` leaves out afterwards
the records that have no attempt left.  A limited read is the beginning of the unlimited one only if no
such record is among the rows that were fetched, or nothing comes after them (`stream_limit_iff`).
-/

namespace AgoraEtl.Dlq

/-! ### A limit before and after a filter -/

section Lists

variable {α β : Type} {p : α → Bool} {n : ℕ} {l : List α}

/-- When a limit and a filter may be exchanged. -/
theorem filter_take_eq_take_filter_iff :
    (l.take n).filter p = (l.filter p).take n ↔
      (∀ a ∈ l.take n, p a = true) ∨ ∀ a ∈ l.drop n, p a = false := by
  have hsplit : l.filter p = (l.take n).filter p ++ (l.drop n).filter p := by
    rw [← List.filter_append, List.take_append_drop]
  have hle : ((l.take n).filter p).length ≤ n :=
    (List.length_filter_le _ _).trans (List.length_take_le _ _)
  rw [hsplit, List.take_append, List.take_of_length_le hle, List.self_eq_append_right,
    List.take_eq_nil_iff]
  constructor
  · rintro (hroom | hnone)
    · by_cases hend : l.drop n = []
      · exact .inr (by simp [hend])
      · refine .inl ?_
        have hlength : (l.take n).length = n := List.length_take_of_le
          (Nat.le_of_lt (not_le.mp fun h => hend (List.drop_eq_nil_iff.mpr h)))
        rw [← List.length_filter_eq_length_iff]
        omega
    · exact .inr fun a ha => by simpa using List.filter_eq_nil_iff.mp hnone a ha
  · rintro (hall | hnone)
    · by_cases hend : l.drop n = []
      · exact .inr (by rw [hend, List.filter_nil])
      · have hlength : (l.take n).length = n := List.length_take_of_le
          (Nat.le_of_lt (not_le.mp fun h => hend (List.drop_eq_nil_iff.mpr h)))
        rw [List.filter_eq_self.mpr hall, hlength]
        exact .inl (Nat.sub_self n)
    · exact .inr (List.filter_eq_nil_iff.mpr fun a ha => by simp [hnone a ha])

variable {f : α → Option β}

theorem mapM_eq_filterMap (h : ∀ a ∈ l, (f a).isSome) : l.mapM f = some (l.filterMap f) := by
  induction l with
  | nil => rfl
  | cons a l ih =>
    obtain ⟨b, hb⟩ := Option.isSome_iff_exists.mp (h a List.mem_cons_self)
    rw [List.mapM_cons, hb, ih fun a ha => h a (List.mem_cons_of_mem _ ha),
      List.filterMap_cons_some hb]
    rfl

theorem filterMap_take (h : ∀ a ∈ l, (f a).isSome) (n : ℕ) :
    (l.take n).filterMap f = (l.filterMap f).take n := by
  induction l generalizing n with
  | nil => rw [List.take_nil, List.filterMap_nil, List.take_nil]
  | cons a l ih =>
    obtain ⟨b, hb⟩ := Option.isSome_iff_exists.mp (h a List.mem_cons_self)
    cases n with
    | zero => rfl
    | succ n =>
      rw [List.take_succ_cons, List.filterMap_cons_some hb, List.filterMap_cons_some hb,
        List.take_succ_cons, ih fun a ha => h a (List.mem_cons_of_mem _ ha)]

end Lists

/-! ### Limited sources -/

variable {V T : Type} {codec : RowCodec V T}

/-- All rows hold the times that the sink writes. -/
def Database.Readable (codec : RowCodec V T) (db : Database) : Prop :=
  ∀ row ∈ db.rows, (codec.fromisoformat row.createdAt).isSome

/-- The records that match the filters of a source, in insertion order. -/
def SQLiteDLQSource.matching (codec : RowCodec V T) (self : SQLiteDLQSource) (db : Database) :
    List (DLQRecord V T) :=
  (db.select fun row => self.accepts row.pipelineId row.stage).filterMap (rowToRecord codec)

theorem isSome_rowToRecord {db : Database} (h : db.Readable codec) (condition : Row → Bool) :
    ∀ row ∈ db.select condition, (rowToRecord codec row).isSome := by
  intro row hrow
  have hmem := (List.mem_filter.mp ((List.mem_insertionSort _).mp hrow)).1
  rw [rowToRecord, Option.isSome_map]
  exact h row hmem

/-- A limited source reads the first matching records and leaves out the exhausted ones. -/
theorem stream_limit {self : SQLiteDLQSource} {db : Database} (hdb : db.Readable codec) {n : ℕ}
    (hlimit : self.limit = some (n : ℤ)) :
    self.stream codec db =
      some (((self.matching codec db).take n).filter SQLiteDLQSource.eligible) := by
  have hrows : self.fetchRows db =
      (db.select fun row => self.accepts row.pipelineId row.stage).take n := by
    unfold SQLiteDLQSource.fetchRows
    rw [hlimit]
    exact if_neg (Int.natCast_nonneg n).not_gt
  have hread := isSome_rowToRecord hdb fun row => self.accepts row.pipelineId row.stage
  unfold SQLiteDLQSource.stream SQLiteDLQSource.matching
  rw [hrows, mapM_eq_filterMap fun row hrow => hread row (List.mem_of_mem_take hrow),
    filterMap_take hread]
  rfl

/-- A source with a limit yields the first eligible ones of the matching records, as many as the limit
says, exactly if no exhausted record is among as many matching ones or no eligible one comes after. -/
theorem stream_limit_iff {self : SQLiteDLQSource} {db : Database} (hdb : db.Readable codec) {n : ℕ}
    (hlimit : self.limit = some (n : ℤ)) :
    self.stream codec db =
        some (((self.matching codec db).filter SQLiteDLQSource.eligible).take n) ↔
      (∀ record ∈ (self.matching codec db).take n, SQLiteDLQSource.eligible record = true) ∨
        ∀ record ∈ (self.matching codec db).drop n, SQLiteDLQSource.eligible record = false := by
  rw [stream_limit hdb hlimit, Option.some.injEq]
  exact filter_take_eq_take_filter_iff

/-! ### A table with an exhausted record -/

/-- A record whose attempts are used up, and one that may be retried. -/
def exhaustedFirst : Database :=
  ⟨[storedRow flagCodec ({ flagRecord with attempt := 3 }, 1), storedRow flagCodec (flagRecord, 2)], 2⟩

/-- A source that reads one record. -/
def oneRecord : SQLiteDLQSource := ⟨some "orders", none, some 1⟩

theorem readable_exhaustedFirst : exhaustedFirst.Readable flagCodec := by
  intro row hrow
  have htime : row.createdAt = flagCodec.isoformat () := by
    simp only [exhaustedFirst, List.mem_cons, List.not_mem_nil, or_false] at hrow
    rcases hrow with rfl | rfl <;> rfl
  rw [htime, flagCodec.fromisoformat_isoformat]
  rfl

theorem not_stream_limit_exhaustedFirst :
    oneRecord.stream flagCodec exhaustedFirst = some [] ∧
      ((oneRecord.matching flagCodec exhaustedFirst).filter SQLiteDLQSource.eligible).take 1 =
        [asRead (flagRecord, 2)] := by
  refine ⟨?_, ?_⟩ <;> decide +kernel

/-- Both records are fetched with a limit of two. -/
theorem stream_limit_iff_two :
    ({ oneRecord with limit := some 2 } : SQLiteDLQSource).stream flagCodec exhaustedFirst =
      some (((({ oneRecord with limit := some 2 } : SQLiteDLQSource).matching flagCodec
        exhaustedFirst).filter SQLiteDLQSource.eligible).take 2) :=
  (stream_limit_iff readable_exhaustedFirst rfl).mpr (.inr (by decide +kernel))

end AgoraEtl.Dlq
