import AgoraEtl.Effect.Runs
import Mathlib.Algebra.Order.Group.Int

/-!
# Buffered file sinks

A buffered sink keeps records until there are `flush_every` of them, and turns them into rows when it
flushes.  If the mapper raises for one of them, the flush raises and all of them stay in the buffer.

`isolates_iff` says in which runs a failing record does no harm: each write that raises does so for
failing records only, and the rows after a flush are those of the records whose writes returned.
-/

namespace AgoraEtl

/-- What distinguishes buffered sinks: the row of a record, if the mapper does not raise, and what is
done to the file before the records are mapped, and with their rows. -/
structure BufferedSink (ρ R T : Type) : Type where
  flushEvery : ℤ
  row : T → Option R
  prepare : ρ → ρ
  emit : ρ → List R → ρ

/-- The buffer, the state of the file, and the rows that were written to it. -/
structure Buffered (ρ R T : Type) : Type where
  buffer : List T
  file : ρ
  rows : List R

/-- A call that writes records, or a flush. -/
inductive RowCall (T : Type) : Type where
  | write (record : T)
  | writeBatch (records : List T)
  | flush

/-- The records that a call is given. -/
def RowCall.records {T : Type} : RowCall T → List T
  | .write record => [record]
  | .writeBatch records => records
  | .flush => []

namespace BufferedSink

variable {ρ R T : Type} (sink : BufferedSink ρ R T)

/-- `flush`; whether it returns, and the state after it. -/
def flush (s : Buffered ρ R T) : Bool × Buffered ρ R T :=
  if s.buffer.isEmpty then (true, s)
  else match s.buffer.mapM sink.row with
    | none => (false, { s with file := sink.prepare s.file })
    | some rows =>
      (true, { buffer := [], file := sink.emit (sink.prepare s.file) rows, rows := s.rows ++ rows })

/-- Buffer records, and flush if there are enough. -/
def extend (s : Buffered ρ R T) (records : List T) : Bool × Buffered ρ R T :=
  let s' := { s with buffer := s.buffer ++ records }
  if sink.flushEvery ≤ s'.buffer.length then sink.flush s' else (true, s')

/-- `write`, `write_batch` and `flush`. -/
def call (s : Buffered ρ R T) : RowCall T → Bool × Buffered ρ R T
  | .write record => sink.extend s [record]
  | .writeBatch records => sink.extend s records
  | .flush => sink.flush s

/-! ### What a run is held to -/

/-- A sink with the records whose writes have returned. -/
structure World (ρ R T : Type) : Type where
  state : Buffered ρ R T
  accepted : List T

def World.start (file : ρ) : World ρ R T := ⟨⟨[], file, []⟩, []⟩

def Step (w : World ρ R T) (c : RowCall T) (w' : World ρ R T) : Prop :=
  w' = ⟨(sink.call w.state c).2,
    if (sink.call w.state c).1 then w.accepted ++ c.records else w.accepted⟩

/-- After one more flush, the rows are those of the records whose writes have returned. -/
def Delivers (w : World ρ R T) : Prop :=
  (sink.flush w.state).2.rows.map some = w.accepted.map sink.row

/-- The call raises for failing records only, and the rows are delivered after it. -/
def Safe (w : World ρ R T) (c : RowCall T) (w' : World ρ R T) : Prop :=
  ((sink.call w.state c).1 = false → ∀ r ∈ c.records, sink.row r = none) ∧ sink.Delivers w'

/-- The buffered records and the new ones are all good; or they are all failing and enough for a
flush. -/
def Accepts (buffer records : List T) : Prop :=
  (∀ r ∈ buffer ++ records, sink.row r ≠ none) ∨
    ((∀ r ∈ buffer ++ records, sink.row r = none) ∧
      sink.flushEvery ≤ (buffer ++ records).length)

/-- A call that writes is only given records that the buffer accepts. -/
def Meets (w : World ρ R T) : RowCall T → Prop
  | .flush => True
  | c => sink.Accepts w.state.buffer c.records

/-- All buffered records are good and will be delivered; or they are all failing, their writes have
raised, and they are enough for a flush. -/
def Inv (w : World ρ R T) : Prop :=
  ((∀ r ∈ w.state.buffer, sink.row r ≠ none) ∧
      w.state.rows.map some ++ w.state.buffer.map sink.row = w.accepted.map sink.row) ∨
    (w.state.buffer ≠ [] ∧ (∀ r ∈ w.state.buffer, sink.row r = none) ∧
      sink.flushEvery ≤ w.state.buffer.length ∧ w.state.rows.map some = w.accepted.map sink.row)

/-! ### One flush -/

/-- One record that cannot be written fails the whole buffer. -/
theorem mapM_eq_none {row : T → Option R} {records : List T} (h : ∃ r ∈ records, row r = none) :
    records.mapM row = none := by
  induction records with
  | nil =>
    obtain ⟨r, hr, -⟩ := h
    exact absurd hr (by simp)
  | cons first records ih =>
    rw [List.mapM_cons]
    cases hfirst : row first with
    | none => rfl
    | some value =>
      obtain ⟨r, hr, hrow⟩ := h
      have hrest : r ∈ records := by
        apply (List.mem_cons.mp hr).resolve_left
        rintro rfl
        rw [hfirst] at hrow
        exact absurd hrow (by simp)
      rw [ih ⟨r, hrest, hrow⟩]
      rfl

/-- A buffer whose records can be written has its rows. -/
theorem exists_mapM_eq_some {row : T → Option R} {records : List T}
    (h : ∀ r ∈ records, row r ≠ none) :
    ∃ rows, records.mapM row = some rows ∧ rows.map some = records.map row := by
  induction records with
  | nil => exact ⟨[], rfl, rfl⟩
  | cons first records ih =>
    obtain ⟨rows, hrows, hmap⟩ := ih fun r hr => h r (List.mem_cons_of_mem _ hr)
    obtain ⟨value, hvalue⟩ := Option.ne_none_iff_exists'.mp (h first List.mem_cons_self)
    refine ⟨value :: rows, ?_, ?_⟩
    · rw [List.mapM_cons, hvalue, hrows]
      rfl
    · rw [List.map_cons, List.map_cons, hmap, hvalue]

variable {sink} {s : Buffered ρ R T} {records : List T}

/-- An empty buffer is not flushed. -/
theorem flush_nil (h : s.buffer = []) : sink.flush s = (true, s) := if_pos (by simp [h])

/-- A buffer that can be written is emitted as its rows. -/
theorem exists_flush_eq (hne : s.buffer ≠ []) (h : ∀ r ∈ s.buffer, sink.row r ≠ none) :
    ∃ rows, rows ≠ [] ∧ rows.map some = s.buffer.map sink.row ∧
      sink.flush s = (true, ⟨[], sink.emit (sink.prepare s.file) rows, s.rows ++ rows⟩) := by
  obtain ⟨rows, hrows, hmap⟩ := exists_mapM_eq_some h
  refine ⟨rows, ?_, hmap, ?_⟩
  · rintro rfl
    exact hne (List.map_eq_nil_iff.mp hmap.symm)
  · rw [flush, if_neg (by simpa using hne), hrows]

/-- A flush of good records writes them all. -/
theorem flush_good (h : ∀ r ∈ s.buffer, sink.row r ≠ none) :
    (sink.flush s).1 = true ∧ (sink.flush s).2.buffer = [] ∧
      (sink.flush s).2.rows.map some = s.rows.map some ++ s.buffer.map sink.row := by
  by_cases hempty : s.buffer = []
  · rw [flush_nil hempty]
    simp [hempty]
  · obtain ⟨rows, -, hmap, hflush⟩ := exists_flush_eq hempty h
    rw [hflush]
    exact ⟨rfl, rfl, by rw [List.map_append, hmap]⟩

/-- A flush with a failing record writes nothing and keeps the buffer. -/
theorem flush_bad (h : ∃ r ∈ s.buffer, sink.row r = none) :
    (sink.flush s).1 = false ∧ (sink.flush s).2.buffer = s.buffer ∧
      (sink.flush s).2.rows = s.rows := by
  have hne : s.buffer ≠ [] := by
    obtain ⟨r, hr, -⟩ := h
    exact List.ne_nil_of_mem hr
  unfold flush
  rw [if_neg (by simpa using hne), mapM_eq_none h]
  exact ⟨rfl, rfl, rfl⟩

/-- Under the invariant the sink has delivered what it was given. -/
theorem delivers_of_inv {w : World ρ R T} (hI : sink.Inv w) : sink.Delivers w := by
  obtain ⟨hgood, hrows⟩ | ⟨hne, hbad, -, hrows⟩ := hI
  · rw [Delivers, (flush_good hgood).2.2, hrows]
  · obtain ⟨r, hr⟩ := List.exists_mem_of_ne_nil _ hne
    rw [Delivers, (flush_bad ⟨r, hr, hbad r hr⟩).2.2, hrows]

/-! ### Records of one call -/

/-- The world after records were given to the sink. -/
def afterExtend (sink : BufferedSink ρ R T) (w : World ρ R T) (records : List T) : World ρ R T :=
  ⟨(sink.extend w.state records).2,
    if (sink.extend w.state records).1 then w.accepted ++ records else w.accepted⟩

/-- Records that can be written are buffered or written, in their order. -/
theorem extend_good (h : ∀ r ∈ s.buffer ++ records, sink.row r ≠ none) :
    (sink.extend s records).1 = true ∧
      (∀ r ∈ (sink.extend s records).2.buffer, sink.row r ≠ none) ∧
      (sink.extend s records).2.rows.map some ++ (sink.extend s records).2.buffer.map sink.row =
        s.rows.map some ++ (s.buffer ++ records).map sink.row := by
  unfold extend
  dsimp only
  split
  next =>
    obtain ⟨hret, hbuffer, hrows⟩ := flush_good (s := { s with buffer := s.buffer ++ records }) h
    refine ⟨hret, ?_, ?_⟩
    · rw [hbuffer]
      exact fun r hr => absurd hr (by simp)
    · rw [hbuffer, hrows, List.map_nil, List.append_nil]
  next => exact ⟨rfl, h, rfl⟩

/-- With a record that cannot be written the buffer keeps all, and a flush fails. -/
theorem extend_bad (h : ∃ r ∈ s.buffer ++ records, sink.row r = none) :
    ((sink.extend s records).1 = true ↔ ¬ sink.flushEvery ≤ (s.buffer ++ records).length) ∧
      (sink.extend s records).2.buffer = s.buffer ++ records ∧
      (sink.extend s records).2.rows = s.rows := by
  unfold extend
  dsimp only
  split
  next hfull =>
    obtain ⟨hret, hbuffer, hrows⟩ := flush_bad (s := { s with buffer := s.buffer ++ records }) h
    refine ⟨?_, hbuffer, hrows⟩
    rw [hret]
    exact ⟨fun hfalse => absurd hfalse (by decide), fun hroom => absurd hfull hroom⟩
  next hroom => exact ⟨iff_of_true rfl hroom, rfl, rfl⟩

/-- An accepted call keeps the invariant. -/
theorem inv_afterExtend {w : World ρ R T} (hI : sink.Inv w)
    (h : sink.Accepts w.state.buffer records) : sink.Inv (sink.afterExtend w records) := by
  by_cases hgood : ∀ r ∈ w.state.buffer ++ records, sink.row r ≠ none
  · obtain ⟨hret, hbuffer, hrows⟩ := extend_good (s := w.state) hgood
    have hsum : w.state.rows.map some ++ w.state.buffer.map sink.row =
        w.accepted.map sink.row := by
      obtain ⟨-, hrows⟩ | ⟨hne, hbad, -⟩ := hI
      · exact hrows
      · obtain ⟨r, hr⟩ := List.exists_mem_of_ne_nil _ hne
        exact absurd (hbad r hr) (hgood r (List.mem_append_left _ hr))
    left
    refine ⟨hbuffer, ?_⟩
    rw [afterExtend, hret, if_pos rfl, List.map_append, ← hsum, List.append_assoc,
      ← List.map_append]
    exact hrows
  · obtain ⟨hbad, hfull⟩ := h.resolve_left hgood
    have hsome : ∃ r ∈ w.state.buffer ++ records, sink.row r = none := by
      push Not at hgood
      exact hgood
    obtain ⟨hret, hbuffer, hrows⟩ := extend_bad (s := w.state) hsome
    have hkept : w.state.rows.map some = w.accepted.map sink.row := by
      obtain ⟨hgood, hrows⟩ | ⟨-, -, -, hrows⟩ := hI
      · have hempty : w.state.buffer = [] := by
          rw [List.eq_nil_iff_forall_not_mem]
          exact fun r hr => hgood r hr (hbad r (List.mem_append_left _ hr))
        rw [← hrows, hempty, List.map_nil, List.append_nil]
      · exact hrows
    have hraised : (sink.extend w.state records).1 = false := by
      rw [← Bool.not_eq_true, hret]
      exact not_not_intro hfull
    right
    rw [afterExtend, hraised]
    refine ⟨?_, ?_, ?_, ?_⟩
    · obtain ⟨r, hr, -⟩ := hsome
      rw [hbuffer]
      exact List.ne_nil_of_mem hr
    · rw [hbuffer]
      exact hbad
    · rw [hbuffer]
      exact hfull
    · rw [hrows]
      exact hkept

/-- A call that is not accepted raises for a good record, or leaves a record that is not delivered. -/
theorem accepts_of_safe {w : World ρ R T} (hI : sink.Inv w)
    (hraise : (sink.extend w.state records).1 = false → ∀ r ∈ records, sink.row r = none)
    (hdelivers : sink.Delivers (sink.afterExtend w records)) :
    sink.Accepts w.state.buffer records := by
  by_cases hgood : ∀ r ∈ w.state.buffer ++ records, sink.row r ≠ none
  · exact Or.inl hgood
  have hsome : ∃ r ∈ w.state.buffer ++ records, sink.row r = none := by
    push Not at hgood
    exact hgood
  obtain ⟨hret, hbuffer, hrows⟩ := extend_bad (s := w.state) hsome
  have hflush : (sink.flush (sink.extend w.state records).2).2.rows = w.state.rows := by
    rw [(flush_bad (by rw [hbuffer]; exact hsome)).2.2, hrows]
  rw [Delivers, afterExtend, hflush] at hdelivers
  right
  by_cases hfull : sink.flushEvery ≤ (w.state.buffer ++ records).length
  · have hraised : (sink.extend w.state records).1 = false := by
      rw [← Bool.not_eq_true, hret]
      exact not_not_intro hfull
    rw [hraised] at hdelivers
    refine ⟨?_, hfull⟩
    intro r hr
    obtain hr | hr := List.mem_append.mp hr
    · obtain ⟨-, hsum⟩ | ⟨-, hbad, -⟩ := hI
      · -- The rows would lack those of the buffer.
        have hdone : w.state.rows.map some = w.accepted.map sink.row := hdelivers
        rw [← hdone, List.append_right_eq_self, List.map_eq_nil_iff] at hsum
        rw [hsum] at hr
        exact absurd hr (by simp)
      · exact hbad r hr
    · exact hraise hraised r hr
  · exfalso
    rw [if_pos (hret.mpr hfull)] at hdelivers
    obtain ⟨r, hr, hrow⟩ := hsome
    obtain hr | hr := List.mem_append.mp hr
    · obtain ⟨hall, -⟩ | ⟨-, -, hlen, -⟩ := hI
      · exact hall r hr hrow
      · apply hfull
        rw [List.length_append]
        omega
    · have hmem : none ∈ (w.accepted ++ records).map sink.row :=
        List.mem_map.mpr ⟨r, List.mem_append_right _ hr, hrow⟩
      rw [← hdelivers] at hmem
      simp at hmem

/-! ### Whole runs -/

/-- Other calls than a flush extend the buffer. -/
theorem step_extend {w w' : World ρ R T} {c : RowCall T} (hc : c ≠ .flush)
    (hstep : sink.Step w c w') :
    w' = sink.afterExtend w c.records ∧
      (sink.call w.state c).1 = (sink.extend w.state c.records).1 ∧
      (sink.Meets w c ↔ sink.Accepts w.state.buffer c.records) := by
  cases c with
  | flush => exact absurd rfl hc
  | write record => exact ⟨hstep, rfl, Iff.rfl⟩
  | writeBatch records => exact ⟨hstep, rfl, Iff.rfl⟩

/-- A flush keeps the invariant. -/
theorem inv_flush {w w' : World ρ R T} (hI : sink.Inv w) (hstep : sink.Step w .flush w') :
    sink.Inv w' := by
  obtain rfl : w' = ⟨(sink.flush w.state).2, w.accepted⟩ := by
    rw [hstep]
    simp [call, RowCall.records]
  obtain ⟨hgood, hrows⟩ | ⟨hne, hbad, hfull, hrows⟩ := hI
  · obtain ⟨-, hbuffer, hflush⟩ := flush_good hgood
    left
    rw [hbuffer]
    refine ⟨fun r hr => absurd hr (by simp), ?_⟩
    rw [hflush, List.map_nil, List.append_nil, hrows]
  · obtain ⟨r, hr⟩ := List.exists_mem_of_ne_nil _ hne
    have hsome : ∃ r ∈ w.state.buffer, sink.row r = none := ⟨r, hr, hbad r hr⟩
    obtain ⟨-, hbuffer, hflush⟩ := flush_bad hsome
    right
    rw [hbuffer, hflush]
    exact ⟨hne, hbad, hfull, hrows⟩

/-- A call under its condition keeps the invariant. -/
theorem inv_of_meets {w w' : World ρ R T} {c : RowCall T} (hI : sink.Inv w)
    (hstep : sink.Step w c w') (h : sink.Meets w c) : sink.Inv w' := by
  by_cases hc : c = .flush
  · subst hc
    exact inv_flush hI hstep
  · obtain ⟨rfl, -, hmeets⟩ := step_extend hc hstep
    exact inv_afterExtend hI (hmeets.mp h)

/-- A call is safe exactly under its condition. -/
theorem safe_iff_meets {w w' : World ρ R T} {c : RowCall T} (hI : sink.Inv w)
    (hstep : sink.Step w c w') : sink.Safe w c w' ↔ sink.Meets w c := by
  constructor
  · rintro ⟨hraise, hdelivers⟩
    by_cases hc : c = .flush
    · subst hc
      trivial
    · obtain ⟨rfl, hret, hmeets⟩ := step_extend hc hstep
      rw [hret] at hraise
      exact hmeets.mpr (accepts_of_safe hI hraise hdelivers)
  · intro h
    refine ⟨?_, delivers_of_inv (inv_of_meets hI hstep h)⟩
    by_cases hc : c = .flush
    · subst hc
      exact fun _ r hr => absurd hr (by simp [RowCall.records])
    · obtain ⟨-, hret, hmeets⟩ := step_extend hc hstep
      intro hraised r hr
      rw [hret] at hraised
      obtain hgood | ⟨hbad, -⟩ := hmeets.mp h
      · rw [(extend_good hgood).1] at hraised
        exact absurd hraised (by simp)
      · exact hbad r (List.mem_append_right _ hr)

/-- **A failing record does no harm in the runs in which it is never together with a good one.** -/
theorem isolates_iff (file : ρ) (calls : List (RowCall T)) (w : World ρ R T) :
    Effect.Runs (fun w c w' => sink.Step w c w' ∧ sink.Safe w c w') (.start file) calls w ↔
      Effect.Runs (fun w c w' => sink.Step w c w' ∧ sink.Meets w c) (.start file) calls w := by
  have hstart : sink.Inv (.start file) := by
    left
    exact ⟨fun r hr => absurd hr (by simp [World.start]), rfl⟩
  exact Effect.Runs.iff_of_invariant (Q := fun w c _ => sink.Meets w c) hstart
    (fun w c w' hI hstep => safe_iff_meets hI hstep)
    (fun w c w' hI hstep h => inv_of_meets hI hstep h)

/-- What is true of the file and the rows written to it, whatever is flushed, is true after every
run. -/
theorem file_invariant (sink : BufferedSink ρ R T) {K : List R → ρ → Prop} {file : ρ} (hstart : K [] file)
    (hprepare : ∀ rows f, K rows f → K rows (sink.prepare f))
    (hemit : ∀ rows rows' f, rows' ≠ [] → K rows f →
      K (rows ++ rows') (sink.emit (sink.prepare f) rows'))
    {calls : List (RowCall T)} {w : World ρ R T}
    (h : Effect.Runs sink.Step (.start file) calls w) : K w.state.rows w.state.file := by
  have hflush : ∀ s : Buffered ρ R T, K s.rows s.file →
      K (sink.flush s).2.rows (sink.flush s).2.file := by
    intro s hK
    by_cases hgood : ∀ r ∈ s.buffer, sink.row r ≠ none
    · by_cases hempty : s.buffer = []
      · rw [flush_nil hempty]
        exact hK
      · obtain ⟨rows, hne, -, hflush⟩ := exists_flush_eq hempty hgood
        rw [hflush]
        exact hemit _ _ _ hne hK
    · have hsome : ∃ r ∈ s.buffer, sink.row r = none := by
        push Not at hgood
        exact hgood
      have hne : s.buffer ≠ [] := by
        obtain ⟨r, hr, -⟩ := hsome
        exact List.ne_nil_of_mem hr
      unfold flush
      rw [if_neg (by simpa using hne), mapM_eq_none hsome]
      exact hprepare _ _ hK
  have hextend : ∀ (s : Buffered ρ R T) (records : List T), K s.rows s.file →
      K (sink.extend s records).2.rows (sink.extend s records).2.file := by
    intro s records hK
    unfold extend
    dsimp only
    split
    next => exact hflush _ hK
    next => exact hK
  refine Effect.Runs.invariant (I := fun _ w => K w.state.rows w.state.file) hstart ?_ h
  intro labels w c w' hK hstep
  rw [hstep]
  cases c with
  | write record => exact hextend _ _ hK
  | writeBatch records => exact hextend _ _ hK
  | flush => exact hflush _ hK

end BufferedSink

end AgoraEtl
