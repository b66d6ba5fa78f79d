import AgoraEtl.Sources.Prefetch

/-!
# Prefetching through the record buffer

`_iter_prefetched_rust` reads the source in a producer thread, which collects a batch of records
before it pushes them into a bounded record buffer; the consumer drains the buffer by batches and
ends when it is closed and empty.
-/

namespace AgoraEtl.Prefetch

open Effect

variable {α χ : Type}

/-! ### The producer thread and the record buffer -/

section Rust

/-- The producer thread. While it pushes a batch, `rest` is what the buffer has not taken yet;
`last` marks the flush after the end of the stream. -/
inductive Thread (α χ : Type) where
  | reading (pendingBatch : List (SourceRecord α χ))
  | pushing (rest : List (SourceRecord α χ)) (last : Bool)
  | closing
  | ended

/-- The consumer: it polls the buffer, yields a batch, asks whether the buffer is done, waits for an
item, or joins the producer. -/
inductive Consumer (α χ : Type) where
  | polling
  | yielding (batch : List (SourceRecord α χ))
  | checking
  | waiting
  | joining
  | finished (raised : Option Exc)

/-- The state of `_iter_prefetched_rust`. -/
structure RustState (α χ : Type) where
  produced : ℕ
  thread : Thread α χ
  errorHolder : Option Exc
  buffer : List (SourceRecord α χ)
  closed : Bool
  consumer : Consumer α χ
  yielded : List (SourceRecord α χ)

/-- The start of `_iter_prefetched_rust`. -/
def RustState.start : RustState α χ := ⟨0, .reading [], none, [], false, .polling, []⟩

/-- What `_iter_prefetched_rust` gave, once it has ended. -/
def RustState.outcome (s : RustState α χ) : Option (Streamed α χ) :=
  match s.consumer with
  | .finished raised => some (s.yielded, raised)
  | _ => none

/-- One step of `_iter_prefetched_rust`. The buffer is a bounded first-in first-out queue; a push
blocks while it is full and gives up when it is closed, a pop takes what is there. Waiting for an
item may time out at any moment. -/
inductive RustStep (source : Source α χ) (prefetchLimit : ℕ) (s : RustState α χ) :
    Side → RustState α χ → Prop where
  /-- The source produces a record; a full batch is flushed. -/
  | read {pendingBatch : List (SourceRecord α χ)} {record : α}
      (reading : s.thread = .reading pendingBatch)
      (produces : source.records[s.produced]? = some record) :
      RustStep source prefetchLimit s .producer { s with
        produced := s.produced + 1
        thread :=
          let pendingBatch := pendingBatch ++ [source.makeSourceRecord (s.produced + 1) record]
          if prefetchLimit ≤ pendingBatch.length then .pushing pendingBatch false
          else .reading pendingBatch }
  /-- The stream ends; what is pending is flushed, if anything is. -/
  | exhausted {pendingBatch : List (SourceRecord α χ)} (reading : s.thread = .reading pendingBatch)
      (exhausted : s.produced = source.records.length) (normally : source.ending = none) :
      RustStep source prefetchLimit s .producer { s with
        thread := if pendingBatch.isEmpty then .closing else .pushing pendingBatch true }
  /-- The source raises; the handler holds an `Exception`, and the pending batch is gone. -/
  | raised {pendingBatch : List (SourceRecord α χ)} {exc : Exc}
      (reading : s.thread = .reading pendingBatch) (exhausted : s.produced = source.records.length)
      (raises : source.ending = some exc) :
      RustStep source prefetchLimit s .producer { s with
        errorHolder := if exc.isException then some exc else none
        thread := .closing }
  /-- The buffer takes a record. -/
  | push {item : SourceRecord α χ} {rest : List (SourceRecord α χ)} {last : Bool}
      (pushing : s.thread = .pushing (item :: rest) last) (isOpen : s.closed = false)
      (space : s.buffer.length < prefetchLimit) :
      RustStep source prefetchLimit s .producer { s with
        buffer := s.buffer ++ [item]
        thread := .pushing rest last }
  /-- The whole batch is pushed. -/
  | pushed {last : Bool} (pushing : s.thread = .pushing [] last) :
      RustStep source prefetchLimit s .producer { s with
        thread := if last then .closing else .reading [] }
  /-- The buffer was closed under the push. -/
  | refused {item : SourceRecord α χ} {rest : List (SourceRecord α χ)} {last : Bool}
      (pushing : s.thread = .pushing (item :: rest) last) (isClosed : s.closed = true) :
      RustStep source prefetchLimit s .producer { s with thread := .closing }
  | close (closing : s.thread = .closing) :
      RustStep source prefetchLimit s .producer { s with closed := true, thread := .ended }
  | pop (polling : s.consumer = .polling) (filled : s.buffer ≠ []) :
      RustStep source prefetchLimit s .consumer { s with
        buffer := s.buffer.drop prefetchLimit
        consumer := .yielding (s.buffer.take prefetchLimit) }
  | yield {item : SourceRecord α χ} {batch : List (SourceRecord α χ)}
      (yielding : s.consumer = .yielding (item :: batch)) :
      RustStep source prefetchLimit s .consumer { s with
        yielded := s.yielded ++ [item]
        consumer := .yielding batch }
  | drained (yielding : s.consumer = .yielding []) :
      RustStep source prefetchLimit s .consumer { s with consumer := .polling }
  | nothing (polling : s.consumer = .polling) (empty : s.buffer = []) :
      RustStep source prefetchLimit s .consumer { s with consumer := .checking }
  /-- `buf.is_done()`: the buffer is closed and empty. -/
  | isDone (checking : s.consumer = .checking) :
      RustStep source prefetchLimit s .consumer { s with
        consumer := if s.closed && s.buffer.isEmpty then .joining else .waiting }
  /-- `wait_for_item` returns. -/
  | waited (waiting : s.consumer = .waiting) (ready : Bool) :
      RustStep source prefetchLimit s .consumer { s with
        consumer := if !ready && (s.closed && s.buffer.isEmpty) then .joining else .polling }
  | join (joining : s.consumer = .joining) :
      RustStep source prefetchLimit s .consumer { s with
        closed := true
        consumer := .finished s.errorHolder }

/-! ### What the record buffer delivers -/

variable {source : Source α χ} {prefetchLimit : ℕ} {s s' : RustState α χ}

/-- The records that reach the buffer: all of them if the stream ends normally, and the full batches
if the source raises. -/
def Source.flushed (source : Source α χ) (prefetchLimit : ℕ) : List (SourceRecord α χ) :=
  match source.ending with
  | none => source.direct
  | some _ => source.direct.take (source.records.length - source.records.length % prefetchLimit)

/-- The records of a batch that the consumer has not yielded yet. -/
def Consumer.held : Consumer α χ → List (SourceRecord α χ)
  | .yielding batch => batch
  | _ => []

/-- Everything that the producer has handed over, in order. -/
def RustState.passed (s : RustState α χ) : List (SourceRecord α χ) :=
  s.yielded ++ s.consumer.held ++ s.buffer

/-- What the producer thread has handed over at each of its points. -/
def ThreadHolds (source : Source α χ) (prefetchLimit : ℕ) (s : RustState α χ) : Prop :=
  match s.thread with
  | .reading pendingBatch =>
    s.passed ++ pendingBatch = source.direct.take s.produced ∧
      pendingBatch.length = s.produced % prefetchLimit ∧ s.produced ≤ source.records.length ∧
      s.errorHolder = none ∧ s.closed = false
  | .pushing rest last =>
    s.passed ++ rest = source.direct.take s.produced ∧
      (if last then s.produced = source.records.length ∧ source.ending = none
        else s.produced % prefetchLimit = 0) ∧ s.produced ≤ source.records.length ∧
      s.errorHolder = none ∧ s.closed = false
  | .closing =>
    s.passed = source.flushed prefetchLimit ∧ s.errorHolder = source.caught ∧ s.closed = false
  | .ended =>
    s.passed = source.flushed prefetchLimit ∧ s.errorHolder = source.caught ∧ s.closed = true

/-- The consumer ends on a closed and empty buffer only. -/
def ConsumerHolds (source : Source α χ) (s : RustState α χ) : Prop :=
  match s.consumer with
  | .joining => s.closed = true ∧ s.buffer = []
  | .finished raised => s.closed = true ∧ s.buffer = [] ∧ raised = source.caught
  | _ => True

theorem succ_mod_of_lt {p l : ℕ} (h : p % l + 1 < l) : (p + 1) % l = p % l + 1 := by
  have hp : p + 1 = l * (p / l) + (p % l + 1) := by
    have hdiv := Nat.div_add_mod p l
    omega
  rw [hp, Nat.mul_add_mod, Nat.mod_eq_of_lt h]

theorem succ_mod_of_eq {p l : ℕ} (h : p % l + 1 = l) : (p + 1) % l = 0 := by
  have hp : p + 1 = l * (p / l) + l := by
    have hdiv := Nat.div_add_mod p l
    omega
  rw [hp, Nat.mul_add_mod, Nat.mod_self]

/-- A record that is read joins the pending batch, which is pushed when it is full. -/
theorem threadHolds_read (hlimit : 0 < prefetchLimit) {pendingBatch : List (SourceRecord α χ)}
    {record : α} (hreading : s.thread = .reading pendingBatch)
    (hproduces : source.records[s.produced]? = some record)
    (h : ThreadHolds source prefetchLimit s) :
    ThreadHolds source prefetchLimit { s with
      produced := s.produced + 1
      thread :=
        let pendingBatch := pendingBatch ++ [source.makeSourceRecord (s.produced + 1) record]
        if prefetchLimit ≤ pendingBatch.length then .pushing pendingBatch false
        else .reading pendingBatch } := by
  unfold ThreadHolds at h
  rw [hreading] at h
  obtain ⟨hpassed, hlength, -, herror, hclosed⟩ := h
  have hlt : s.produced < source.records.length := (List.getElem?_eq_some_iff.mp hproduces).1
  have hmod : s.produced % prefetchLimit < prefetchLimit := Nat.mod_lt _ hlimit
  have htake : s.passed ++ (pendingBatch ++ [source.makeSourceRecord (s.produced + 1) record]) =
      source.direct.take (s.produced + 1) := by
    rw [source.take_direct_succ hproduces, ← hpassed, List.append_assoc]
  have hlength' : (pendingBatch ++ [source.makeSourceRecord (s.produced + 1) record]).length =
      s.produced % prefetchLimit + 1 := by
    rw [List.length_append, hlength]
    rfl
  unfold ThreadHolds
  dsimp only
  by_cases hfull : prefetchLimit ≤
      (pendingBatch ++ [source.makeSourceRecord (s.produced + 1) record]).length
  · rw [if_pos hfull]
    rw [hlength'] at hfull
    exact ⟨htake, succ_mod_of_eq (by omega), hlt, herror, hclosed⟩
  · rw [if_neg hfull]
    rw [hlength'] at hfull
    refine ⟨htake, ?_, hlt, herror, hclosed⟩
    rw [hlength', succ_mod_of_lt (by omega)]

/-- What is handed over when the source raises is the full batches. -/
theorem flushed_of_raised {exc : Exc} {passed pendingBatch : List (SourceRecord α χ)}
    (hraises : source.ending = some exc) (hpassed : passed ++ pendingBatch = source.direct)
    (hlength : pendingBatch.length = source.records.length % prefetchLimit) :
    passed = source.flushed prefetchLimit := by
  have htotal := congrArg List.length hpassed
  rw [List.length_append, source.length_direct, hlength] at htotal
  unfold Source.flushed
  rw [hraises]
  dsimp only
  rw [← hpassed]
  exact (List.take_left' (by omega)).symm

/-- Of a source that ends normally everything is flushed and nothing is caught. -/
theorem flushed_of_normally (prefetchLimit : ℕ) (h : source.ending = none) :
    source.flushed prefetchLimit = source.direct ∧ source.caught = none := by
  unfold Source.flushed Source.caught
  rw [h]
  exact ⟨rfl, rfl⟩

/-- A step of the producer thread. -/
theorem threadHolds_producer (hlimit : 0 < prefetchLimit)
    (hstep : RustStep source prefetchLimit s .producer s') (h : ThreadHolds source prefetchLimit s) :
    ThreadHolds source prefetchLimit s' := by
  have htaken : source.direct.take source.records.length = source.direct :=
    List.take_of_length_le (by simp)
  cases hstep with
  | read hreading hproduces => exact threadHolds_read hlimit hreading hproduces h
  | @exhausted pendingBatch hreading hover hnormally =>
    unfold ThreadHolds at h
    rw [hreading] at h
    obtain ⟨hpassed, hlength, hle, herror, hclosed⟩ := h
    obtain ⟨hflushed, hcaught⟩ := flushed_of_normally prefetchLimit hnormally
    unfold ThreadHolds
    cases pendingBatch with
    | nil =>
      refine ⟨?_, herror.trans hcaught.symm, hclosed⟩
      rw [List.append_nil, hover, htaken] at hpassed
      exact hpassed.trans hflushed.symm
    | cons item rest => exact ⟨hpassed, ⟨hover, hnormally⟩, hle, herror, hclosed⟩
  | raised hreading hover hraises =>
    unfold ThreadHolds at h
    rw [hreading] at h
    obtain ⟨hpassed, hlength, -, -, hclosed⟩ := h
    rw [hover, htaken] at hpassed
    rw [hover] at hlength
    refine ⟨flushed_of_raised hraises hpassed hlength, ?_, hclosed⟩
    unfold Source.caught
    rw [hraises]
  | push hpushing hopen hspace =>
    unfold ThreadHolds at h ⊢
    rw [hpushing] at h
    obtain ⟨hpassed, hrest⟩ := h
    refine ⟨?_, hrest⟩
    rw [← hpassed]
    simp [RustState.passed]
  | @pushed last hpushing =>
    unfold ThreadHolds at h ⊢
    rw [hpushing] at h
    obtain ⟨hpassed, hlast, hle, herror, hclosed⟩ := h
    cases last with
    | false =>
      refine ⟨hpassed, ?_, hle, herror, hclosed⟩
      rw [if_neg (by simp)] at hlast
      exact hlast.symm
    | true =>
      rw [if_pos rfl] at hlast
      obtain ⟨hover, hnormally⟩ := hlast
      rw [List.append_nil, hover, htaken] at hpassed
      obtain ⟨hflushed, hcaught⟩ := flushed_of_normally prefetchLimit hnormally
      exact ⟨hpassed.trans hflushed.symm, herror.trans hcaught.symm, hclosed⟩
  | refused hpushing hclosed =>
    unfold ThreadHolds at h
    rw [hpushing] at h
    rw [h.2.2.2.2] at hclosed
    cases hclosed
  | close hclosing =>
    unfold ThreadHolds at h ⊢
    rw [hclosing] at h
    exact ⟨h.1, h.2.1, rfl⟩

/-- A step of the consumer moves records along and keeps their order. -/
theorem passed_consumer (hstep : RustStep source prefetchLimit s .consumer s') :
    s'.passed = s.passed := by
  cases hstep with
  | pop hpolling hfilled => simp [RustState.passed, Consumer.held, hpolling]
  | yield hyielding => simp [RustState.passed, Consumer.held, hyielding]
  | drained hyielding => simp [RustState.passed, Consumer.held, hyielding]
  | nothing hpolling hempty => simp [RustState.passed, Consumer.held, hpolling]
  | isDone hchecking =>
    unfold RustState.passed
    rw [hchecking]
    dsimp only
    split_ifs <;> rfl
  | waited hwaiting ready =>
    unfold RustState.passed
    rw [hwaiting]
    dsimp only
    split_ifs <;> rfl
  | join hjoining => simp [RustState.passed, Consumer.held, hjoining]

/-- A closed buffer was closed by a producer that has ended. -/
theorem ThreadHolds.ended (h : ThreadHolds source prefetchLimit s) (hclosed : s.closed = true) :
    s.thread = .ended ∧ s.passed = source.flushed prefetchLimit ∧ s.errorHolder = source.caught := by
  unfold ThreadHolds at h
  cases hthread : s.thread with
  | reading pendingBatch =>
    rw [hthread] at h
    exact absurd hclosed (by simp [h.2.2.2.2])
  | pushing rest last =>
    rw [hthread] at h
    exact absurd hclosed (by simp [h.2.2.2.2])
  | closing =>
    rw [hthread] at h
    exact absurd hclosed (by simp [h.2.2])
  | ended =>
    rw [hthread] at h
    exact ⟨rfl, h.1, h.2.1⟩

/-- The invariant of `_iter_prefetched_rust`. -/
structure RustHolds (source : Source α χ) (prefetchLimit : ℕ) (s : RustState α χ) : Prop where
  thread : ThreadHolds source prefetchLimit s
  consumer : ConsumerHolds source s

theorem rustHolds_start (source : Source α χ) (prefetchLimit : ℕ) :
    RustHolds source prefetchLimit .start where
  thread := ⟨rfl, (Nat.zero_mod _).symm, Nat.zero_le _, rfl, rfl⟩
  consumer := trivial

theorem consumerHolds_producer (hstep : RustStep source prefetchLimit s .producer s')
    (h : ConsumerHolds source s) : ConsumerHolds source s' := by
  have hkept : s'.consumer = s.consumer → s'.closed = s.closed ∨ s'.closed = true →
      s'.buffer = s.buffer → ConsumerHolds source s' := by
    intro hconsumer hclosed hbuffer
    unfold ConsumerHolds at h ⊢
    rw [hconsumer, hbuffer]
    rcases hclosed with hclosed | hclosed
    · rw [hclosed]
      exact h
    · rw [hclosed]
      cases hcase : s.consumer with
      | joining =>
        rw [hcase] at h
        exact ⟨rfl, h.2⟩
      | finished raised =>
        rw [hcase] at h
        exact ⟨rfl, h.2⟩
      | _ => trivial
  cases hstep with
  | push hpushing hopen hspace =>
    unfold ConsumerHolds at h ⊢
    cases hcase : s.consumer with
    | joining =>
      rw [hcase] at h
      exact absurd h.1 (by simp [hopen])
    | finished raised =>
      rw [hcase] at h
      exact absurd h.1 (by simp [hopen])
    | _ => trivial
  | close hclosing => exact hkept rfl (.inr rfl) rfl
  | _ => exact hkept rfl (.inl rfl) rfl

theorem RustHolds.step (hlimit : 0 < prefetchLimit) {side : Side}
    (h : RustHolds source prefetchLimit s) (hstep : RustStep source prefetchLimit s side s') :
    RustHolds source prefetchLimit s' := by
  cases side with
  | producer =>
    exact ⟨threadHolds_producer hlimit hstep h.thread, consumerHolds_producer hstep h.consumer⟩
  | consumer =>
    have hpassed := passed_consumer hstep
    have hthread : s'.thread = s.thread → s'.produced = s.produced →
        s'.errorHolder = s.errorHolder → s'.closed = s.closed →
        ThreadHolds source prefetchLimit s' := by
      intro hthread hproduced herror hclosed
      have hsame := h.thread
      unfold ThreadHolds at hsame ⊢
      rw [hthread, hproduced, herror, hclosed, hpassed]
      exact hsame
    have hdone : (s.closed && s.buffer.isEmpty) = true → s.closed = true ∧ s.buffer = [] := by
      intro hdone
      simpa using hdone
    cases hstep with
    | pop hpolling hfilled => exact ⟨hthread rfl rfl rfl rfl, trivial⟩
    | yield hyielding => exact ⟨hthread rfl rfl rfl rfl, trivial⟩
    | drained hyielding => exact ⟨hthread rfl rfl rfl rfl, trivial⟩
    | nothing hpolling hempty => exact ⟨hthread rfl rfl rfl rfl, trivial⟩
    | isDone hchecking =>
      refine ⟨hthread rfl rfl rfl rfl, ?_⟩
      unfold ConsumerHolds
      dsimp only
      by_cases hcase : (s.closed && s.buffer.isEmpty) = true
      · rw [if_pos hcase]
        exact hdone hcase
      · rw [if_neg hcase]
        trivial
    | waited hwaiting ready =>
      refine ⟨hthread rfl rfl rfl rfl, ?_⟩
      unfold ConsumerHolds
      dsimp only
      by_cases hcase : (!ready && (s.closed && s.buffer.isEmpty)) = true
      · rw [if_pos hcase]
        rw [Bool.and_eq_true] at hcase
        exact hdone hcase.2
      · rw [if_neg hcase]
        trivial
    | join hjoining =>
      have hconsumer := h.consumer
      unfold ConsumerHolds at hconsumer
      rw [hjoining] at hconsumer
      obtain ⟨hclosed, hempty⟩ := hconsumer
      obtain ⟨-, -, herror⟩ := h.thread.ended hclosed
      exact ⟨hthread rfl rfl rfl hclosed.symm, rfl, hempty, herror⟩

/-- A run that has ended gave what was flushed. -/
theorem RustHolds.outcome (h : RustHolds source prefetchLimit s) {given : Streamed α χ}
    (hgiven : s.outcome = some given) : given = (source.flushed prefetchLimit, source.caught) := by
  have hconsumer := h.consumer
  unfold RustState.outcome at hgiven
  unfold ConsumerHolds at hconsumer
  cases hcase : s.consumer with
  | finished raised =>
    rw [hcase] at hgiven hconsumer
    obtain ⟨hclosed, hempty, hraised⟩ := hconsumer
    obtain ⟨-, hpassed, -⟩ := h.thread.ended hclosed
    unfold RustState.passed at hpassed
    rw [hempty, hcase, List.append_nil] at hpassed
    have hyielded : s.yielded = source.flushed prefetchLimit := by
      simpa [Consumer.held] using hpassed
    obtain rfl := Option.some.inj hgiven
    rw [hyielded, hraised]
  | _ =>
    rw [hcase] at hgiven
    cases hgiven

/-! ### Every run can be completed -/

/-- What the producer thread has still to do. -/
def Thread.work : Thread α χ → ℕ
  | .reading pendingBatch => 2 * pendingBatch.length + 5
  | .pushing rest last => 2 * rest.length + if last then 3 else 6
  | .closing => 2
  | .ended => 0

/-- What the consumer has still to do, given whether the buffer is empty. -/
def Consumer.work (empty : Bool) : Consumer α χ → ℕ
  | .finished _ => 0
  | .joining => 1
  | .checking => if empty then 2 else 6
  | .waiting => 5
  | .polling => 4
  | .yielding batch => 5 + batch.length

/-- A measure of the way to the end; the work of the producer weighs more than what it gives the
consumer to do. -/
def RustState.work (source : Source α χ) (s : RustState α χ) : ℕ :=
  10 * (4 * (source.records.length - s.produced) + s.thread.work) +
    (3 * s.buffer.length + s.consumer.work s.buffer.isEmpty)

/-- While the buffer is open and empty the producer can go on. -/
theorem RustHolds.producer_goes_on (hlimit : 0 < prefetchLimit)
    (h : RustHolds source prefetchLimit s) (hopen : s.closed = false) (hempty : s.buffer = []) :
    ∃ s', RustStep source prefetchLimit s .producer s' ∧ s'.work source < s.work source := by
  have hthread := h.thread
  unfold ThreadHolds at hthread
  cases hcase : s.thread with
  | reading pendingBatch =>
    rw [hcase] at hthread
    obtain ⟨-, -, hle, -, -⟩ := hthread
    by_cases hover : s.produced = source.records.length
    · cases hending : source.ending with
      | none =>
        refine ⟨_, .exhausted hcase hover hending, ?_⟩
        cases pendingBatch with
        | nil => simp [RustState.work, hcase, Thread.work]
        | cons item rest => simp [RustState.work, hcase, Thread.work]
      | some exc =>
        refine ⟨_, .raised hcase hover hending, ?_⟩
        simp only [RustState.work, hcase, Thread.work]
        omega
    · have hlt : s.produced < source.records.length := by omega
      refine ⟨_, .read hcase (List.getElem?_eq_getElem hlt), ?_⟩
      simp only [RustState.work, hcase]
      split_ifs <;> simp [Thread.work] <;> omega
  | pushing rest last =>
    cases rest with
    | nil =>
      refine ⟨_, .pushed hcase, ?_⟩
      cases last with
      | false => simp [RustState.work, hcase, Thread.work]
      | true => simp [RustState.work, hcase, Thread.work]
    | cons item rest =>
      refine ⟨_, .push hcase hopen (by simpa [hempty] using hlimit), ?_⟩
      cases hconsumer : s.consumer <;>
        simp [RustState.work, hcase, Thread.work, Consumer.work, hempty, hconsumer] <;> omega
  | closing =>
    refine ⟨_, .close hcase, ?_⟩
    simp only [RustState.work, hcase, Thread.work]
    omega
  | ended =>
    rw [hcase] at hthread
    exact absurd hthread.2.2 (by simp [hopen])

/-- While the buffer is filled or closed the consumer can go on, until it has finished. -/
theorem consumer_goes_on (hlimit : 0 < prefetchLimit)
    (hready : s.buffer ≠ [] ∨ s.closed = true) (hgoing : s.outcome = none) :
    ∃ s', RustStep source prefetchLimit s .consumer s' ∧ s'.work source < s.work source := by
  have hclosed : s.buffer = [] → s.closed = true := by
    intro hempty
    rcases hready with hfilled | hclosed
    · exact absurd hempty hfilled
    · exact hclosed
  cases hcase : s.consumer with
  | polling =>
    by_cases hempty : s.buffer = []
    · refine ⟨_, .nothing hcase hempty, ?_⟩
      simp [RustState.work, hcase, Consumer.work, hempty]
    · refine ⟨_, .pop hcase hempty, ?_⟩
      have hpos : 0 < s.buffer.length := List.length_pos_iff.mpr hempty
      simp only [RustState.work, hcase, Consumer.work, List.length_drop, List.length_take]
      omega
  | yielding batch =>
    cases batch with
    | nil =>
      refine ⟨_, .drained hcase, ?_⟩
      simp [RustState.work, hcase, Consumer.work]
    | cons item batch =>
      refine ⟨_, .yield hcase, ?_⟩
      simp [RustState.work, hcase, Consumer.work]
  | checking =>
    refine ⟨_, .isDone hcase, ?_⟩
    by_cases hempty : s.buffer = []
    · simp [RustState.work, hcase, Consumer.work, hempty, hclosed hempty]
    · simp [RustState.work, hcase, Consumer.work, hempty]
  | waiting =>
    refine ⟨_, .waited hcase true, ?_⟩
    simp [RustState.work, hcase, Consumer.work]
  | joining =>
    refine ⟨_, .join hcase, ?_⟩
    simp [RustState.work, hcase, Consumer.work]
  | finished raised =>
    unfold RustState.outcome at hgoing
    rw [hcase] at hgoing
    cases hgoing

/-- The adapter with the record buffer gives the flushed records and the caught exception. -/
theorem streams_rust (hlimit : 0 < prefetchLimit) :
    Streams (RustStep source prefetchLimit) .start RustState.outcome
      (source.flushed prefetchLimit, source.caught) := by
  intro labels s hrun
  have hholds : RustHolds source prefetchLimit s :=
    hrun.invariant (I := fun _ s => RustHolds source prefetchLimit s)
      (rustHolds_start source prefetchLimit) fun _ _ _ _ hholds hstep => hholds.step hlimit hstep
  refine ⟨fun given hgiven => hholds.outcome hgiven, ?_⟩
  have hreach : ∃ labels' s', Runs (RustStep source prefetchLimit) s labels' s' ∧
      RustHolds source prefetchLimit s' ∧ (s'.outcome).isSome := by
    refine Runs.reach (RustState.work source) (fun s hholds hgoing => ?_) hholds
    have hnone : s.outcome = none := Option.not_isSome_iff_eq_none.mp hgoing
    by_cases hready : s.buffer ≠ [] ∨ s.closed = true
    · obtain ⟨s', hstep, hlt⟩ := consumer_goes_on hlimit hready hnone
      exact ⟨.consumer, s', hstep, hholds.step hlimit hstep, hlt⟩
    · obtain ⟨hempty, hopen⟩ := not_or.mp hready
      obtain ⟨s', hstep, hlt⟩ :=
        hholds.producer_goes_on hlimit (by simpa using hopen) (not_not.mp hempty)
      exact ⟨.producer, s', hstep, hholds.step hlimit hstep, hlt⟩
  obtain ⟨labels', s', hrun', -, hsome⟩ := hreach
  exact ⟨labels', s', hrun', hsome⟩

/-- When what is flushed and caught is what the direct stream gives. -/
theorem streamed_eq_iff :
    source.streamed = (source.flushed prefetchLimit, source.caught) ↔
      ∀ exc, source.ending = some exc →
        exc.isException = true ∧ prefetchLimit ∣ source.records.length := by
  unfold Source.streamed Source.flushed Source.caught
  cases hending : source.ending with
  | none => simp
  | some exc =>
    dsimp only
    have htake : source.direct = source.direct.take
        (source.records.length - source.records.length % prefetchLimit) ↔
        prefetchLimit ∣ source.records.length := by
      rw [eq_comm, List.take_eq_self_iff, source.length_direct, Nat.dvd_iff_mod_eq_zero]
      have hle := Nat.mod_le source.records.length prefetchLimit
      omega
    have hraised : some exc = (if exc.isException then some exc else none) ↔
        exc.isException = true := by
      cases exc.isException <;> simp
    rw [Prod.mk.injEq, htake, hraised]
    constructor
    · rintro ⟨hdvd, hexception⟩ exc' hexc'
      obtain rfl := Option.some.inj hexc'
      exact ⟨hexception, hdvd⟩
    · intro h
      obtain ⟨hexception, hdvd⟩ := h exc rfl
      exact ⟨hdvd, hexception⟩

end Rust

end AgoraEtl.Prefetch
