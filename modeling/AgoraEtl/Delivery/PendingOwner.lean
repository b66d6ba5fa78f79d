import AgoraEtl.Effect.Runs
import Mathlib.Tactic.Tauto

/-!
# The protocol of the pending-write owner

A producer queues records; the owner task takes them in batches and hands each batch to the writer.
They share a list, three events and a slot for an error. Here each stretch of code between two waits is
one step, and the steps of the two come in any order. A wait for an event that is set already is a
step of its own, which leaves the other task more room than it has.

What a flush does after the batch was taken touches none of what is shared, so a flush is the batch it
has taken until it ends in one of three ways.
-/

namespace AgoraEtl.PendingOwner

variable {ρ ε : Type}

/-! ### What the two tasks share -/

/-- A writer that uses the owner: `uses_pending_write_owner`. -/
structure OwnerConfig where
  writerBatchSize : ℕ
  batchFlushIntervalMs : ℕ
  batched : 1 < writerBatchSize
  timed : 0 < batchFlushIntervalMs

/-- What a flush, a task or a call has raised. -/
inductive Failure (ε : Type) where
  | error (error : ε)
  | cancelled
  deriving DecidableEq

/-- Where the owner task is. -/
inductive OwnerTask (ρ ε : Type) where
  | created
  | waiting (timeout : Bool)
  | flushing (batch : List ρ)
  | returned
  | raised (failure : Failure ε)
  deriving DecidableEq

/-- What is kept in `pending_write_error`. -/
def Failure.error? : Failure ε → Option ε
  | .error e => some e
  | .cancelled => none

/-- How a flush ends. -/
inductive Outcome (ε : Type) where
  | done
  | raised (failure : Failure ε)
  deriving DecidableEq

/-- The pending writes in `RunState`, and the batches that `write_batch` was called with. -/
structure Pending (ρ ε : Type) where
  pendingWrites : List ρ := []
  ownerTask : Option (OwnerTask ρ ε) := none
  notify : Bool := false
  stop : Bool := false
  flushed : Bool := false
  error : Option ε := none
  written : List (List ρ) := []
  deriving DecidableEq

namespace Pending

/-- `_flush_pending_writes_once` up to the writer, for pending writes that are not empty. -/
def take (s : Pending ρ ε) : Pending ρ ε :=
  { s with pendingWrites := [], written := s.written ++ [s.pendingWrites] }

/-- The owner takes a batch. -/
def ownerTakes (s : Pending ρ ε) : Pending ρ ε :=
  { s.take with ownerTask := some (.flushing s.pendingWrites) }

/-- The head of the loop of `run_pending_write_owner`. -/
def head (cfg : OwnerConfig) (s : Pending ρ ε) : Pending ρ ε :=
  if s.stop ∧ s.pendingWrites = [] then { s with ownerTask := some .returned }
  else if cfg.writerBatchSize ≤ s.pendingWrites.length then s.ownerTakes
  else { s with ownerTask := some (.waiting (!s.pendingWrites.isEmpty)) }

/-- The loop from the end of the wait on. -/
def afterWait (cfg : OwnerConfig) (s : Pending ρ ε) (timedOut : Bool) : Pending ρ ε :=
  let s := { s with notify := false }
  if s.stop ∧ s.pendingWrites ≠ [] then s.ownerTakes
  else if timedOut ∧ s.pendingWrites ≠ [] then s.ownerTakes
  else s.head cfg

/-- The loop from the end of a flush on, and the handlers around it. -/
def afterFlush (cfg : OwnerConfig) (s : Pending ρ ε) : Outcome ε → Pending ρ ε
  | .done => { s with flushed := true }.head cfg
  | .raised (.error e) =>
    { s with error := some e, flushed := true, ownerTask := some (.raised (.error e)) }
  | .raised .cancelled => { s with ownerTask := some (.raised .cancelled) }

/-- `ensure_pending_write_owner`. -/
def ensure (s : Pending ρ ε) : Pending ρ ε :=
  if s.ownerTask.isSome then s
  else { s with
    notify := false
    stop := false
    flushed := true
    error := none
    ownerTask := some .created }

/-- `queue_success_record` up to the test of the number of pending writes. -/
def append (s : Pending ρ ε) (record : ρ) : Pending ρ ε :=
  { s.ensure with
    flushed := false
    pendingWrites := s.ensure.pendingWrites ++ [record]
    notify := true }

/-- `close_pending_write_owner` after the task has ended. -/
def reset (s : Pending ρ ε) : Pending ρ ε :=
  { s with ownerTask := none, notify := false, stop := false, flushed := false, error := none }

end Pending

/-! ### The two tasks -/

/-- Where the producer is: between two calls, in `wait_for_pending_write_capacity`, after a call of
`queue_success_record` that has raised, or in `flush_pending_writes`. -/
inductive Producer (ε : Type) where
  | ready
  | capacity
  | queueRaised (failure : Failure ε)
  | joining
  | flushing
  | returned
  | raised (failure : Failure ε)
  deriving DecidableEq

/-- The shared state and the producer, with the records that were queued and the first failure of a
flush. -/
structure World (ρ ε : Type) where
  state : Pending ρ ε := {}
  producer : Producer ε := .ready
  queued : List ρ := []
  failure : Option (Failure ε) := none
  deriving DecidableEq

/-- What happens next. -/
inductive Event (ρ ε : Type) where
  /-- The producer queues a record. -/
  | queue (record : ρ)
  /-- The producer's wait for capacity ends. -/
  | flushed
  /-- The producer calls `flush_pending_writes`. -/
  | flush
  /-- The producer's wait for the owner ends. -/
  | join
  /-- The producer's own flush ends. -/
  | flushEnds (outcome : Outcome ε)
  /-- The owner begins. -/
  | start
  /-- The owner's wait ends by a notification. -/
  | notified
  /-- The owner's wait ends by the timer. -/
  | expired
  /-- The owner's flush ends. -/
  | settle (outcome : Outcome ε)

/-- `wait_for_pending_write_capacity`, from the test on. -/
def capacityLoop (cfg : OwnerConfig) (s : Pending ρ ε) : Producer ε :=
  if cfg.writerBatchSize ≤ s.pendingWrites.length then
    match s.error with
    | some e => .queueRaised (.error e)
    | none => .capacity
  else .ready

/-- The producer may call `flush_pending_writes`. -/
def Producer.mayFlush : Producer ε → Bool
  | .ready | .queueRaised _ => true
  | _ => false

/-- The failure that a flush adds. -/
def Outcome.failure : Outcome ε → Option (Failure ε)
  | .done => none
  | .raised failure => some failure

namespace World

/-- The flush of `flush_pending_writes` itself. -/
def flushOnce (w : World ρ ε) : World ρ ε :=
  if w.state.pendingWrites = [] then { w with producer := .returned }
  else { w with state := w.state.take, producer := .flushing }

/-- `close_pending_write_owner` from the end of the task on, and the rest of `flush_pending_writes`. -/
def joined (w : World ρ ε) (ended : Option (Failure ε)) : World ρ ε :=
  let w' := { w with state := w.state.reset }
  match w.state.error with
  | some e => { w' with producer := .raised (.error e) }
  | none =>
    match ended with
    | some failure => { w' with producer := .raised failure }
    | none => w'.flushOnce

/-- One step; nothing if the event is not possible. -/
def next (cfg : OwnerConfig) (w : World ρ ε) : Event ρ ε → Option (World ρ ε)
  | .queue record =>
    match w.producer with
    | .ready =>
      some { w with
        state := w.state.append record
        producer := capacityLoop cfg (w.state.append record)
        queued := w.queued ++ [record] }
    | _ => none
  | .flushed =>
    match w.producer with
    | .capacity =>
      if w.state.flushed then some { w with producer := capacityLoop cfg w.state } else none
    | _ => none
  | .flush =>
    if w.producer.mayFlush then
      if w.state.ownerTask.isSome then
        some { w with state := { w.state with notify := true, stop := true }, producer := .joining }
      else some w.flushOnce
    else none
  | .join =>
    match w.producer, w.state.ownerTask with
    | .joining, some .returned => some (w.joined none)
    | .joining, some (.raised failure) => some (w.joined (some failure))
    | _, _ => none
  | .flushEnds outcome =>
    match w.producer, outcome with
    | .flushing, .done => some { w with producer := .returned }
    | .flushing, .raised failure =>
      some { w with producer := .raised failure, failure := w.failure.or (some failure) }
    | _, _ => none
  | .start =>
    match w.state.ownerTask with
    | some .created => some { w with state := w.state.head cfg }
    | _ => none
  | .notified =>
    match w.state.ownerTask with
    | some (.waiting _) =>
      if w.state.notify then some { w with state := w.state.afterWait cfg false } else none
    | _ => none
  | .expired =>
    match w.state.ownerTask with
    | some (.waiting true) => some { w with state := w.state.afterWait cfg true }
    | _ => none
  | .settle outcome =>
    match w.state.ownerTask with
    | some (.flushing _) =>
      some { w with
        state := w.state.afterFlush cfg outcome
        failure := w.failure.or outcome.failure }
    | _ => none

/-- The step that an event is. -/
def Step (cfg : OwnerConfig) (w : World ρ ε) (event : Event ρ ε) (w' : World ρ ε) : Prop :=
  w.next cfg event = some w'

/-! ### The protocol -/

/-- What the protocol says of a step, most of it of the state after it. -/
structure Safe (cfg : OwnerConfig) (w w' : World ρ ε) : Prop where
  /-- Every record is with the writer or pending, once and in order. -/
  order : w'.state.written.flatten ++ w'.state.pendingWrites = w'.queued
  complete : w'.producer = .returned → w'.state.written.flatten = w'.queued
  /-- The producer and the owner do not wait for each other. -/
  awake : w'.failure = none → w'.producer = .capacity → w'.state.flushed = false →
    ∀ timeout, w'.state.ownerTask = some (.waiting timeout) → w'.state.notify = true
  /-- The producer does not turn round and round at an event that is set. -/
  room : w'.producer = .capacity → w'.state.flushed = true →
    w'.state.error ≠ none ∨ w'.state.pendingWrites.length < cfg.writerBatchSize
  /-- The owner hears of the end. -/
  closes : w'.producer = .joining →
    ∀ timeout, w'.state.ownerTask = some (.waiting timeout) → w'.state.notify = true
  /-- A failure wakes the producer and is what `flush_pending_writes` raises. -/
  raises : ∀ failure, w'.failure = some failure → w'.producer ≠ .returned ∧
    (w'.producer = .capacity → w'.state.flushed = true)
  raised : ∀ failure, w'.producer = .queueRaised failure ∨ w'.producer = .raised failure →
    w'.failure = some failure
  /-- Nothing is written after a failure. -/
  halts : w.failure ≠ none → w'.state.written = w.state.written

/-- When a step is what the protocol says: no flush is cancelled while the producer waits, and after a
flush was cancelled no record is queued that fills a batch. -/
def Meets (cfg : OwnerConfig) (w : World ρ ε) : Event ρ ε → Prop
  | .settle (.raised .cancelled) => w.producer = .capacity → w.state.flushed = true
  | .queue _ => w.state.ownerTask = some (.raised .cancelled) →
      w.state.pendingWrites.length + 1 < cfg.writerBatchSize
  | _ => True

/-! ### The phases of a run -/

/-- Nothing was queued yet. -/
structure Fresh (w : World ρ ε) : Prop where
  task : w.state.ownerTask = none
  producer : w.producer = .ready
  empty : w.state.pendingWrites = []
  error : w.state.error = none
  failure : w.failure = none

/-- The producer queues and the owner works. -/
structure Open (cfg : OwnerConfig) (w : World ρ ε) : Prop where
  task : w.state.ownerTask = some .created ∨ (∃ timeout, w.state.ownerTask = some (.waiting timeout)) ∨
    ∃ batch, w.state.ownerTask = some (.flushing batch)
  producer : w.producer = .ready ∨ w.producer = .capacity
  error : w.state.error = none
  failure : w.failure = none
  stop : w.state.stop = false
  wakes : w.producer = .capacity → w.state.flushed = false →
    (∃ batch, w.state.ownerTask = some (.flushing batch)) ∨
    (cfg.writerBatchSize ≤ w.state.pendingWrites.length ∧
      ∀ timeout, w.state.ownerTask = some (.waiting timeout) → w.state.notify = true)
  room : w.producer = .capacity → w.state.flushed = true →
    w.state.pendingWrites.length < cfg.writerBatchSize

/-- The producer waits for the end of the owner. -/
structure Closing (w : World ρ ε) : Prop where
  task : w.state.ownerTask = some .created ∨ (∃ timeout, w.state.ownerTask = some (.waiting timeout)) ∨
    (∃ batch, w.state.ownerTask = some (.flushing batch)) ∨ w.state.ownerTask = some .returned
  producer : w.producer = .joining
  error : w.state.error = none
  failure : w.failure = none
  stop : w.state.stop = true
  wakes : w.state.notify = true ∨ w.state.pendingWrites = []
  hears : ∀ timeout, w.state.ownerTask = some (.waiting timeout) → w.state.notify = true
  returned : w.state.ownerTask = some .returned → w.state.pendingWrites = []

/-- A flush has failed. -/
structure Failed (cfg : OwnerConfig) (w : World ρ ε) (f : Failure ε) : Prop where
  task : w.state.ownerTask = some (.raised f)
  failure : w.failure = some f
  error : w.state.error = f.error?
  producer : w.producer = .ready ∨ w.producer = .queueRaised f ∨ w.producer = .joining ∨
    (w.producer = .capacity ∧ w.state.flushed = true ∧
      (w.state.error ≠ none ∨ w.state.pendingWrites.length < cfg.writerBatchSize))

/-- `flush_pending_writes` has ended. -/
structure Ended (w : World ρ ε) : Prop where
  task : w.state.ownerTask = none
  producer : (w.producer = .returned ∧ w.failure = none ∧ w.state.pendingWrites = []) ∨
    ∃ failure, w.producer = .raised failure ∧ w.failure = some failure

/-- What holds as long as every step is what the protocol says. -/
structure Inv (cfg : OwnerConfig) (w : World ρ ε) : Prop where
  order : w.state.written.flatten ++ w.state.pendingWrites = w.queued
  phase : w.Fresh ∨ w.Open cfg ∨ w.Closing ∨ (∃ failure, w.Failed cfg failure) ∨ w.Ended

variable {cfg : OwnerConfig} {w w' : World ρ ε}

/-- All but the last clause of the protocol is said of the state after the step. -/
theorem Inv.safe (h : w'.Inv cfg) (hhalts : w.failure ≠ none → w'.state.written = w.state.written) :
    Safe cfg w w' := by
  obtain ⟨horder, hfresh | hopen | hclosing | ⟨f, hfailed⟩ | hended⟩ := h
  · have hproducer := hfresh.producer
    refine ⟨horder, ?_, ?_, ?_, ?_, ?_, ?_, hhalts⟩
    all_goals simp [hproducer, hfresh.failure]
  · refine ⟨horder, ?_, ?_, fun hcapacity hflushed => .inr (hopen.room hcapacity hflushed), ?_, ?_, ?_,
      hhalts⟩
    · rcases hopen.producer with hproducer | hproducer <;> simp [hproducer]
    · intro _ hcapacity hflushed timeout htask
      rcases hopen.wakes hcapacity hflushed with ⟨batch, hbatch⟩ | ⟨-, hnotify⟩
      · rw [htask] at hbatch
        exact absurd hbatch (by simp)
      · exact hnotify timeout htask
    · rcases hopen.producer with hproducer | hproducer <;> simp [hproducer]
    · simp [hopen.failure]
    · rcases hopen.producer with hproducer | hproducer <;> simp [hproducer]
  · have hproducer := hclosing.producer
    refine ⟨horder, ?_, ?_, ?_, fun _ => hclosing.hears, ?_, ?_, hhalts⟩
    all_goals simp [hproducer, hclosing.failure]
  · have htask := hfailed.task
    have hfailure := hfailed.failure
    refine ⟨horder, ?_, ?_, ?_, ?_, ?_, ?_, hhalts⟩
    · rcases hfailed.producer with hp | hp | hp | ⟨hp, -⟩ <;> simp [hp]
    · simp [hfailure]
    · rcases hfailed.producer with hp | hp | hp | ⟨hp, -, hroom⟩
      · simp [hp]
      · simp [hp]
      · simp [hp]
      · exact fun _ _ => hroom
    · simp [htask]
    · intro f' _
      rcases hfailed.producer with hp | hp | hp | ⟨hp, hflushed, -⟩
      · simp [hp]
      · simp [hp]
      · simp [hp]
      · exact ⟨by simp [hp], fun _ => hflushed⟩
    · rcases hfailed.producer with hp | hp | hp | ⟨hp, -⟩
      · simp [hp]
      · simpa [hp] using hfailure
      · simp [hp]
      · simp [hp]
  · obtain ⟨hp, hfailure, hempty⟩ | ⟨f, hp, hfailure⟩ := hended.producer
    · refine ⟨horder, fun _ => ?_, ?_, ?_, ?_, ?_, ?_, hhalts⟩
      · rw [← horder, hempty, List.append_nil]
      all_goals simp [hp, hfailure]
    · refine ⟨horder, ?_, ?_, ?_, ?_, ?_, ?_, hhalts⟩
      all_goals simp [hp, hfailure]

/-! ### What each phase leads to -/

/-- An empty queue is shorter than a batch. -/
theorem length_take_lt (cfg : OwnerConfig) : ([] : List ρ).length < cfg.writerBatchSize :=
  Nat.lt_of_lt_of_le Nat.zero_lt_one (Nat.le_of_lt cfg.batched)

/-- The owner takes a batch while the producer queues. -/
theorem Open.ownerTakes (hproducer : w.producer = .ready ∨ w.producer = .capacity)
    (hfailure : w.failure = none) {s : Pending ρ ε} (herror : s.error = none)
    (hstop : s.stop = false) : ({ w with state := s.ownerTakes } : World ρ ε).Open cfg where
  task := .inr (.inr ⟨s.pendingWrites, rfl⟩)
  producer := hproducer
  error := herror
  failure := hfailure
  stop := hstop
  wakes _ _ := .inl ⟨s.pendingWrites, rfl⟩
  room _ _ := length_take_lt cfg

/-- The owner is at the head of its loop while the producer queues. -/
theorem Open.head (hproducer : w.producer = .ready ∨ w.producer = .capacity)
    (hfailure : w.failure = none) {s : Pending ρ ε} (herror : s.error = none)
    (hstop : s.stop = false)
    (hfull : w.producer = .capacity → s.flushed = false →
      cfg.writerBatchSize ≤ s.pendingWrites.length) :
    ({ w with state := s.head cfg } : World ρ ε).Open cfg := by
  unfold Pending.head
  rw [if_neg (by simp [hstop])]
  split
  next => exact Open.ownerTakes hproducer hfailure herror hstop
  next hfew =>
    refine ⟨.inr (.inl ⟨_, rfl⟩), hproducer, herror, hfailure, hstop, fun hcapacity hflushed => ?_,
      fun _ _ => Nat.lt_of_not_le hfew⟩
    exact absurd (hfull hcapacity hflushed) hfew

/-- The owner's wait ends while the producer queues. -/
theorem Open.afterWait (h : w.Open cfg) {timeout : Bool}
    (htask : w.state.ownerTask = some (.waiting timeout)) (timedOut : Bool) :
    ({ w with state := w.state.afterWait cfg timedOut } : World ρ ε).Open cfg := by
  unfold Pending.afterWait
  dsimp only
  rw [if_neg (by simp [h.stop])]
  split
  next => exact Open.ownerTakes h.producer h.failure h.error h.stop
  next =>
    refine Open.head h.producer h.failure h.error h.stop fun hcapacity hflushed => ?_
    rcases h.wakes hcapacity hflushed with ⟨batch, hbatch⟩ | ⟨hfull, -⟩
    · rw [htask] at hbatch
      exact absurd hbatch (by simp)
    · exact hfull

/-- The owner is at the head of its loop while the producer waits for it. -/
theorem Closing.head (hproducer : w.producer = .joining) (hfailure : w.failure = none)
    {s : Pending ρ ε} (herror : s.error = none) (hstop : s.stop = true)
    (hwakes : s.notify = true ∨ s.pendingWrites = []) :
    ({ w with state := s.head cfg } : World ρ ε).Closing := by
  unfold Pending.head
  split
  next hdone =>
    exact ⟨.inr (.inr (.inr rfl)), hproducer, herror, hfailure, hstop, .inr hdone.2, nofun,
      fun _ => hdone.2⟩
  next hmore =>
    split
    next =>
      exact ⟨.inr (.inr (.inl ⟨s.pendingWrites, rfl⟩)), hproducer, herror, hfailure, hstop, .inr rfl,
        nofun, nofun⟩
    next =>
      have hpending : s.pendingWrites ≠ [] := fun hempty => hmore ⟨hstop, hempty⟩
      have hnotify := hwakes.resolve_right hpending
      exact ⟨.inr (.inl ⟨_, rfl⟩), hproducer, herror, hfailure, hstop, .inl hnotify,
        fun _ _ => hnotify, nofun⟩

/-- The owner's wait ends while the producer waits for it. -/
theorem Closing.afterWait (h : w.Closing) (timedOut : Bool) :
    ({ w with state := w.state.afterWait cfg timedOut } : World ρ ε).Closing := by
  unfold Pending.afterWait
  dsimp only
  split
  next =>
    exact ⟨.inr (.inr (.inl ⟨w.state.pendingWrites, rfl⟩)), h.producer, h.error, h.failure, h.stop,
      .inr rfl, nofun, nofun⟩
  next hnot =>
    have hempty : w.state.pendingWrites = [] := by
      by_contra hpending
      exact hnot ⟨h.stop, hpending⟩
    rw [if_neg fun hexpired => hexpired.2 hempty]
    exact Closing.head h.producer h.failure h.error h.stop (.inr hempty)

/-- Without an error the producer waits exactly while a batch is queued. -/
theorem capacityLoop_of_error_none {s : Pending ρ ε} (h : s.error = none) :
    capacityLoop cfg s =
      if cfg.writerBatchSize ≤ s.pendingWrites.length then .capacity else .ready := by
  unfold capacityLoop
  rw [h]

/-- A record is queued before any flush has failed. -/
theorem Open.append (hfailure : w.failure = none) {s : Pending ρ ε} (herror : s.error = none)
    (htask : s.ownerTask = none ∨ ((s.ownerTask = some .created ∨
      (∃ timeout, s.ownerTask = some (.waiting timeout)) ∨
      ∃ batch, s.ownerTask = some (.flushing batch)) ∧ s.stop = false)) (record : ρ)
    (queued : List ρ) :
    ({ w with
        state := s.append record
        producer := capacityLoop cfg (s.append record)
        queued := queued } : World ρ ε).Open cfg := by
  have hensure : s.ensure.error = none ∧ s.ensure.stop = false ∧
      (s.ensure.ownerTask = some .created ∨ (∃ timeout, s.ensure.ownerTask = some (.waiting timeout)) ∨
        ∃ batch, s.ensure.ownerTask = some (.flushing batch)) := by
    rcases htask with hnone | ⟨halive, hstop⟩
    · have hensure : s.ensure = { s with
          notify := false, stop := false, flushed := true, error := none,
          ownerTask := some .created } := by
        rw [Pending.ensure, if_neg (by simp [hnone])]
      rw [hensure]
      exact ⟨rfl, rfl, .inl rfl⟩
    · have hsome : s.ownerTask.isSome = true := by
        rcases halive with h | ⟨timeout, h⟩ | ⟨batch, h⟩ <;> rw [h] <;> rfl
      rw [Pending.ensure, if_pos hsome]
      exact ⟨herror, hstop, halive⟩
  obtain ⟨herror', hstop', htask'⟩ := hensure
  have hloop : capacityLoop cfg (s.append record) =
      if cfg.writerBatchSize ≤ (s.append record).pendingWrites.length then .capacity else .ready :=
    capacityLoop_of_error_none herror'
  refine ⟨htask', ?_, herror', hfailure, hstop', fun hcapacity _ => ?_, fun _ hflushed => ?_⟩
  · dsimp only
    rw [hloop]
    split
    next => exact .inr rfl
    next => exact .inl rfl
  · refine .inr ⟨?_, fun _ _ => rfl⟩
    by_contra hfew
    dsimp only at hcapacity
    rw [hloop, if_neg hfew] at hcapacity
    exact absurd hcapacity (by simp)
  · exact absurd hflushed Bool.false_ne_true

/-- From a fresh world the lane begins, or it ends at once. -/
theorem Fresh.next (h : w.Fresh) {event : Event ρ ε} (hstep : Step cfg w event w') :
    w'.Open cfg ∨ w'.Ended := by
  have hproducer := h.producer
  have htask := h.task
  cases event with
  | queue record =>
    simp only [Step, World.next, hproducer, Option.some.injEq] at hstep
    subst hstep
    exact .inl (Open.append h.failure h.error (.inl htask) record _)
  | flush =>
    simp only [Step, World.next, hproducer, htask, Producer.mayFlush, Option.isSome_none,
      if_true, Bool.false_eq_true, if_false, Option.some.injEq] at hstep
    subst hstep
    have hflush : w.flushOnce = { w with producer := .returned } := if_pos h.empty
    rw [hflush]
    exact .inr ⟨htask, .inl ⟨rfl, h.failure, h.empty⟩⟩
  | _ => simp [Step, World.next, hproducer, htask] at hstep

/-- After the end there is no step. -/
theorem Ended.next (h : w.Ended) {event : Event ρ ε} (hstep : Step cfg w event w') : False := by
  have htask := h.task
  rcases h.producer with ⟨hproducer, -⟩ | ⟨f, hproducer, -⟩ <;> cases event <;>
    simp [Step, World.next, hproducer, htask, Producer.mayFlush] at hstep

/-- A flush of the owner fails. -/
theorem Failed.settle (hfailure : w.failure = none) (herror : w.state.error = none) (f : Failure ε)
    (hproducer : w.producer = .ready ∨ w.producer = .joining ∨ w.producer = .capacity)
    (hwoken : f = .cancelled → w.producer = .capacity → w.state.flushed = true ∧
      w.state.pendingWrites.length < cfg.writerBatchSize) :
    ({ w with
        state := w.state.afterFlush cfg (.raised f)
        failure := w.failure.or (some f) } : World ρ ε).Failed cfg f := by
  have hfirst : w.failure.or (some f) = some f := by rw [hfailure]; rfl
  cases f with
  | error e =>
    refine ⟨rfl, hfirst, rfl, ?_⟩
    rcases hproducer with hp | hp | hp
    · exact .inl hp
    · exact .inr (.inr (.inl hp))
    · exact .inr (.inr (.inr ⟨hp, rfl, .inl (Option.some_ne_none e)⟩))
  | cancelled =>
    refine ⟨rfl, hfirst, herror, ?_⟩
    rcases hproducer with hp | hp | hp
    · exact .inl hp
    · exact .inr (.inr (.inl hp))
    · obtain ⟨hflushed, hroom⟩ := hwoken rfl hp
      exact .inr (.inr (.inr ⟨hp, hflushed, .inr hroom⟩))

/-! ### The events -/

/-- The owner's events: they are possible by where the owner is, and leave the producer alone. -/
theorem owner_step {event : Event ρ ε} (hstep : Step cfg w event w')
    (howner : event = .start ∨ event = .notified ∨ event = .expired ∨
      ∃ outcome, event = .settle outcome) :
    (w.state.ownerTask = some .created ∧ w' = { w with state := w.state.head cfg }) ∨
    (∃ timeout timedOut, w.state.ownerTask = some (.waiting timeout) ∧
      w' = { w with state := w.state.afterWait cfg timedOut }) ∨
    ∃ batch outcome, event = .settle outcome ∧ w.state.ownerTask = some (.flushing batch) ∧
      w' = { w with
        state := w.state.afterFlush cfg outcome
        failure := w.failure.or outcome.failure } := by
  rcases howner with rfl | rfl | rfl | ⟨outcome, rfl⟩
  · dsimp only [Step, World.next] at hstep
    split at hstep
    next htask => exact .inl ⟨htask, (Option.some.inj hstep).symm⟩
    next => exact absurd hstep nofun
  · dsimp only [Step, World.next] at hstep
    split at hstep
    next timeout htask =>
      split at hstep
      next => exact .inr (.inl ⟨timeout, false, htask, (Option.some.inj hstep).symm⟩)
      next => exact absurd hstep nofun
    next => exact absurd hstep nofun
  · dsimp only [Step, World.next] at hstep
    split at hstep
    next htask => exact .inr (.inl ⟨true, true, htask, (Option.some.inj hstep).symm⟩)
    next => exact absurd hstep nofun
  · dsimp only [Step, World.next] at hstep
    split at hstep
    next batch htask => exact .inr (.inr ⟨batch, outcome, rfl, htask, (Option.some.inj hstep).symm⟩)
    next => exact absurd hstep nofun

/-- The owner's own steps leave the world open, or it has failed. -/
theorem Open.owner (h : w.Open cfg) {event : Event ρ ε} (hstep : Step cfg w event w')
    (howner : event = .start ∨ event = .notified ∨ event = .expired ∨
      ∃ outcome, event = .settle outcome) (hmeets : Meets cfg w event) :
    w'.Open cfg ∨ ∃ f, w'.Failed cfg f := by
  rcases owner_step hstep howner with ⟨htask, rfl⟩ | ⟨timeout, timedOut, htask, rfl⟩ |
    ⟨batch, outcome, rfl, htask, rfl⟩
  · refine .inl (Open.head h.producer h.failure h.error h.stop fun hcapacity hflushed => ?_)
    rcases h.wakes hcapacity hflushed with ⟨batch, hbatch⟩ | ⟨hfull, -⟩
    · rw [htask] at hbatch
      exact absurd hbatch (by simp)
    · exact hfull
  · exact .inl (h.afterWait htask timedOut)
  · cases outcome with
    | done =>
      have hsame : w.failure.or (Outcome.done (ε := ε)).failure = w.failure := by
        rw [h.failure]
        rfl
      rw [hsame]
      have hset : w.producer = .capacity → true = false →
          cfg.writerBatchSize ≤ w.state.pendingWrites.length := fun _ hfalse => absurd hfalse nofun
      have hhead : ({ w with state := ({ w.state with flushed := true } : Pending ρ ε).head cfg } :
          World ρ ε).Open cfg := Open.head h.producer h.failure h.error h.stop hset
      exact .inl hhead
    | raised f =>
      refine .inr ⟨f, Failed.settle h.failure h.error f (h.producer.imp_right .inr) ?_⟩
      rintro rfl hcapacity
      exact ⟨hmeets hcapacity, h.room hcapacity (hmeets hcapacity)⟩

/-- While the lane closes, the owner's steps go on closing, or it has failed. -/
theorem Closing.owner (h : w.Closing) {event : Event ρ ε} (hstep : Step cfg w event w')
    (howner : event = .start ∨ event = .notified ∨ event = .expired ∨
      ∃ outcome, event = .settle outcome) : w'.Closing ∨ ∃ f, w'.Failed cfg f := by
  rcases owner_step hstep howner with ⟨htask, rfl⟩ | ⟨timeout, timedOut, htask, rfl⟩ |
    ⟨batch, outcome, rfl, htask, rfl⟩
  · exact .inl (Closing.head h.producer h.failure h.error h.stop h.wakes)
  · exact .inl (h.afterWait timedOut)
  · cases outcome with
    | done =>
      have hsame : w.failure.or (Outcome.done (ε := ε)).failure = w.failure := by
        rw [h.failure]
        rfl
      rw [hsame]
      have hhead : ({ w with state := ({ w.state with flushed := true } : Pending ρ ε).head cfg } :
          World ρ ε).Closing := Closing.head h.producer h.failure h.error h.stop h.wakes
      exact .inl hhead
    | raised f =>
      refine .inr ⟨f, Failed.settle h.failure h.error f (.inr (.inl h.producer)) ?_⟩
      rintro rfl hcapacity
      rw [h.producer] at hcapacity
      exact absurd hcapacity (by simp)

/-- From an open world a step leads to one that is open, closing or failed. -/
theorem Open.next (h : w.Open cfg) {event : Event ρ ε} (hstep : Step cfg w event w')
    (hmeets : Meets cfg w event) : w'.Open cfg ∨ w'.Closing ∨ ∃ f, w'.Failed cfg f := by
  have hsome : w.state.ownerTask.isSome = true := by
    rcases h.task with htask | ⟨timeout, htask⟩ | ⟨batch, htask⟩ <;> rw [htask] <;> rfl
  cases event with
  | queue record =>
    rcases h.producer with hproducer | hproducer
    · simp only [Step, World.next, hproducer, Option.some.injEq] at hstep
      subst hstep
      exact .inl (Open.append h.failure h.error (.inr ⟨h.task, h.stop⟩) record _)
    · simp [Step, World.next, hproducer] at hstep
  | flushed =>
    rcases h.producer with hproducer | hproducer
    · simp [Step, World.next, hproducer] at hstep
    · simp only [Step, World.next, hproducer, Option.ite_none_right_eq_some,
        Option.some.injEq] at hstep
      obtain ⟨hflushed, rfl⟩ := hstep
      have hroom := h.room hproducer hflushed
      have hready : capacityLoop cfg w.state = .ready := by
        rw [capacityLoop_of_error_none h.error, if_neg (Nat.not_le_of_lt hroom)]
      rw [hready]
      exact .inl ⟨h.task, .inl rfl, h.error, h.failure, h.stop, nofun, nofun⟩
  | flush =>
    rcases h.producer with hproducer | hproducer
    · simp only [Step, World.next, hproducer, Producer.mayFlush, hsome, if_true,
        Option.some.injEq] at hstep
      subst hstep
      refine .inr (.inl ⟨?_, rfl, h.error, h.failure, rfl, .inl rfl, fun _ _ => rfl, ?_⟩)
      · exact h.task.imp_right (Or.imp_right .inl)
      · intro hreturned
        rcases h.task with htask | ⟨timeout, htask⟩ | ⟨batch, htask⟩ <;>
          exact absurd (htask.symm.trans hreturned) (by simp)
    · simp [Step, World.next, hproducer, Producer.mayFlush] at hstep
  | join => rcases h.producer with hproducer | hproducer <;> simp [Step, World.next, hproducer] at hstep
  | flushEnds outcome =>
    rcases h.producer with hproducer | hproducer <;> simp [Step, World.next, hproducer] at hstep
  | start => exact (h.owner hstep (.inl rfl) hmeets).imp_right .inr
  | notified => exact (h.owner hstep (.inr (.inl rfl)) hmeets).imp_right .inr
  | expired => exact (h.owner hstep (.inr (.inr (.inl rfl))) hmeets).imp_right .inr
  | settle outcome =>
    exact (h.owner hstep (.inr (.inr (.inr ⟨outcome, rfl⟩))) hmeets).imp_right .inr

/-- Joining an owner that has returned resets the state. -/
theorem Closing.joined_eq (h : w.Closing) (htask : w.state.ownerTask = some .returned) :
    w.joined none = { w with state := w.state.reset, producer := .returned } := by
  rw [World.joined, h.error]
  exact if_pos (h.returned htask)

/-- From a closing world a step leads to one that is closing, failed or ended. -/
theorem Closing.next (h : w.Closing) {event : Event ρ ε} (hstep : Step cfg w event w') :
    w'.Closing ∨ (∃ f, w'.Failed cfg f) ∨ w'.Ended := by
  have hproducer := h.producer
  cases event with
  | join =>
    have hjoined : w.state.ownerTask = some .returned ∧ w' = w.joined none := by
      rcases h.task with htask | ⟨timeout, htask⟩ | ⟨batch, htask⟩ | htask
      · simp [Step, World.next, hproducer, htask] at hstep
      · simp [Step, World.next, hproducer, htask] at hstep
      · simp [Step, World.next, hproducer, htask] at hstep
      · simp only [Step, World.next, hproducer, htask, Option.some.injEq] at hstep
        exact ⟨htask, hstep.symm⟩
    obtain ⟨htask, rfl⟩ := hjoined
    rw [h.joined_eq htask]
    exact .inr (.inr ⟨rfl, .inl ⟨rfl, h.failure, h.returned htask⟩⟩)
  | start => exact (h.owner hstep (.inl rfl)).imp_right .inl
  | notified => exact (h.owner hstep (.inr (.inl rfl))).imp_right .inl
  | expired => exact (h.owner hstep (.inr (.inr (.inl rfl)))).imp_right .inl
  | settle outcome => exact (h.owner hstep (.inr (.inr (.inr ⟨outcome, rfl⟩)))).imp_right .inl
  | _ => simp [Step, World.next, hproducer, Producer.mayFlush] at hstep

/-- A record is queued after a flush has failed. -/
theorem Failed.append {f : Failure ε} (h : w.Failed cfg f) (record : ρ) (queued : List ρ)
    (hmeets : f = .cancelled → w.state.pendingWrites.length + 1 < cfg.writerBatchSize) :
    ({ w with
        state := w.state.append record
        producer := capacityLoop cfg (w.state.append record)
        queued := queued } : World ρ ε).Failed cfg f := by
  have hensure : w.state.ensure = w.state := by
    rw [Pending.ensure, h.task]
    rfl
  have herror : (w.state.append record).error = f.error? := by
    rw [Pending.append, hensure]
    exact h.error
  have hlength : (w.state.append record).pendingWrites.length = w.state.pendingWrites.length + 1 := by
    rw [Pending.append, hensure]
    exact List.length_append
  refine ⟨?_, h.failure, herror, ?_⟩
  · rw [Pending.append, hensure]
    exact h.task
  · dsimp only
    unfold capacityLoop
    rw [herror, hlength]
    split
    next hfull =>
      cases f with
      | error e => exact .inr (.inl rfl)
      | cancelled => exact absurd (hmeets rfl) (Nat.not_lt_of_le hfull)
    next => exact .inl rfl

/-- Joining an owner that has failed raises its failure. -/
theorem Failed.joined_eq {f : Failure ε} (h : w.Failed cfg f) :
    w.joined (some f) = { w with state := w.state.reset, producer := .raised f } := by
  rw [World.joined, h.error]
  cases f <;> rfl

/-- A failed world stays failed or ends, and nothing more is written. -/
theorem Failed.next {f : Failure ε} (h : w.Failed cfg f) {event : Event ρ ε}
    (hstep : Step cfg w event w') (hmeets : Meets cfg w event) :
    (w'.Failed cfg f ∨ w'.Ended) ∧ w'.state.written = w.state.written := by
  have htask := h.task
  cases event with
  | queue record =>
    rcases h.producer with hproducer | hproducer | hproducer | ⟨hproducer, -⟩
    · simp only [Step, World.next, hproducer, Option.some.injEq] at hstep
      subst hstep
      refine ⟨.inl (h.append record _ fun hcancelled => ?_), ?_⟩
      · exact hmeets (by rw [htask, hcancelled])
      · dsimp only
        rw [Pending.append, Pending.ensure, htask]
        rfl
    all_goals simp [Step, World.next, hproducer] at hstep
  | flushed =>
    rcases h.producer with hproducer | hproducer | hproducer | ⟨hproducer, -, hroom⟩
    · simp [Step, World.next, hproducer] at hstep
    · simp [Step, World.next, hproducer] at hstep
    · simp [Step, World.next, hproducer] at hstep
    · simp only [Step, World.next, hproducer, Option.ite_none_right_eq_some,
        Option.some.injEq] at hstep
      obtain ⟨hflushed, rfl⟩ := hstep
      refine ⟨.inl ⟨htask, h.failure, h.error, ?_⟩, rfl⟩
      dsimp only
      unfold capacityLoop
      have herror := h.error
      rw [herror] at hroom ⊢
      split
      next hfull =>
        cases f with
        | error e => exact .inr (.inl rfl)
        | cancelled =>
          have hfew := hroom.resolve_left (not_not.mpr rfl)
          exact absurd hfew (Nat.not_lt_of_le hfull)
      next => exact .inl rfl
  | flush =>
    have hsome : w.state.ownerTask.isSome = true := by rw [htask]; rfl
    have hjoining : w' = { w with
        state := { w.state with notify := true, stop := true }, producer := .joining } := by
      rcases h.producer with hproducer | hproducer | hproducer | ⟨hproducer, -⟩
      · simp only [Step, World.next, hproducer, hsome, Producer.mayFlush, if_true,
          Option.some.injEq] at hstep
        exact hstep.symm
      · simp only [Step, World.next, hproducer, hsome, Producer.mayFlush, if_true,
          Option.some.injEq] at hstep
        exact hstep.symm
      · simp [Step, World.next, hproducer, Producer.mayFlush] at hstep
      · simp [Step, World.next, hproducer, Producer.mayFlush] at hstep
    subst hjoining
    exact ⟨.inl ⟨htask, h.failure, h.error, .inr (.inr (.inl rfl))⟩, rfl⟩
  | join =>
    have hjoined : w' = w.joined (some f) := by
      rcases h.producer with hproducer | hproducer | hproducer | ⟨hproducer, -⟩
      · simp [Step, World.next, hproducer] at hstep
      · simp [Step, World.next, hproducer] at hstep
      · simp only [Step, World.next, hproducer, htask, Option.some.injEq] at hstep
        exact hstep.symm
      · simp [Step, World.next, hproducer] at hstep
    subst hjoined
    rw [h.joined_eq]
    exact ⟨.inr ⟨rfl, .inr ⟨f, rfl, h.failure⟩⟩, rfl⟩
  | flushEnds outcome =>
    rcases h.producer with hproducer | hproducer | hproducer | ⟨hproducer, -⟩ <;>
      simp [Step, World.next, hproducer] at hstep
  | start => simp [Step, World.next, htask] at hstep
  | notified => simp [Step, World.next, htask] at hstep
  | expired => simp [Step, World.next, htask] at hstep
  | settle outcome => simp [Step, World.next, htask] at hstep

/-! ### Records in order -/

/-- What is with the writer and what is pending. -/
def contents (s : Pending ρ ε) : List ρ := s.written.flatten ++ s.pendingWrites

/-- Taking a batch moves records, and loses none. -/
theorem contents_take (s : Pending ρ ε) : contents s.take = contents s := by
  simp [contents, Pending.take]

/-- Looking at the head of the loop loses no record. -/
theorem contents_head (s : Pending ρ ε) : contents (s.head cfg) = contents s := by
  unfold Pending.head
  split
  · rfl
  · split
    · exact contents_take s
    · rfl

/-- Nor does the end of a wait. -/
theorem contents_afterWait (s : Pending ρ ε) (timedOut : Bool) :
    contents (s.afterWait cfg timedOut) = contents s := by
  unfold Pending.afterWait
  dsimp only
  split
  · exact contents_take { s with notify := false }
  · split
    · exact contents_take { s with notify := false }
    · exact contents_head { s with notify := false }

/-- Nor does the end of a flush. -/
theorem contents_afterFlush (s : Pending ρ ε) (outcome : Outcome ε) :
    contents (s.afterFlush cfg outcome) = contents s := by
  rcases outcome with _ | e | _
  · exact contents_head { s with flushed := true }
  · rfl
  · rfl

/-- A queued record comes last. -/
theorem contents_append (s : Pending ρ ε) (record : ρ) :
    contents (s.append record) = contents s ++ [record] := by
  have hensure : contents s.ensure = contents s := by
    unfold Pending.ensure
    split <;> rfl
  rw [← hensure]
  simp [contents, Pending.append]

/-- Flushing what is queued loses no record. -/
theorem contents_flushOnce (w : World ρ ε) : contents w.flushOnce.state = contents w.state := by
  unfold flushOnce
  split
  · rfl
  · exact contents_take w.state

/-- It queues none either. -/
theorem queued_flushOnce (w : World ρ ε) : w.flushOnce.queued = w.queued := by
  unfold flushOnce
  split <;> rfl

/-- Joining the owner leaves what was written and queued. -/
theorem joined_contents (w : World ρ ε) (ended : Option (Failure ε)) :
    contents (w.joined ended).state = contents w.state ∧ (w.joined ended).queued = w.queued := by
  unfold joined
  dsimp only
  split
  · exact ⟨rfl, rfl⟩
  · split
    · exact ⟨rfl, rfl⟩
    · exact ⟨contents_flushOnce _, queued_flushOnce _⟩

/-- The owner's steps move records, and lose none. -/
theorem owner_contents {event : Event ρ ε} (hstep : Step cfg w event w')
    (howner : event = .start ∨ event = .notified ∨ event = .expired ∨
      ∃ outcome, event = .settle outcome) :
    contents w'.state = contents w.state ∧ w'.queued = w.queued := by
  rcases owner_step hstep howner with ⟨-, rfl⟩ | ⟨_, timedOut, -, rfl⟩ | ⟨_, outcome, -, -, rfl⟩
  · exact ⟨contents_head w.state, rfl⟩
  · exact ⟨contents_afterWait w.state timedOut, rfl⟩
  · exact ⟨contents_afterFlush w.state outcome, rfl⟩

/-- No step loses or doubles a record, or changes the order. -/
theorem order_next {event : Event ρ ε} (hstep : Step cfg w event w')
    (h : contents w.state = w.queued) : contents w'.state = w'.queued := by
  cases event with
  | queue record =>
    dsimp only [Step, World.next] at hstep
    split at hstep
    next =>
      obtain rfl := Option.some.inj hstep
      exact (contents_append w.state record).trans (by rw [h])
    next => exact absurd hstep nofun
  | flushed =>
    dsimp only [Step, World.next] at hstep
    split at hstep
    next =>
      split at hstep
      next =>
        obtain rfl := Option.some.inj hstep
        exact h
      next => exact absurd hstep nofun
    next => exact absurd hstep nofun
  | flush =>
    dsimp only [Step, World.next] at hstep
    split at hstep
    next =>
      split at hstep
      next =>
        obtain rfl := Option.some.inj hstep
        exact h
      next =>
        obtain rfl := Option.some.inj hstep
        rw [contents_flushOnce, queued_flushOnce]
        exact h
    next => exact absurd hstep nofun
  | join =>
    have hjoined : ∃ ended, w' = w.joined ended := by
      dsimp only [Step, World.next] at hstep
      split at hstep
      next => exact ⟨_, (Option.some.inj hstep).symm⟩
      next => exact ⟨_, (Option.some.inj hstep).symm⟩
      next => exact absurd hstep nofun
    obtain ⟨ended, rfl⟩ := hjoined
    obtain ⟨hsame, hqueued⟩ := w.joined_contents ended
    rw [hsame, hqueued]
    exact h
  | flushEnds outcome =>
    dsimp only [Step, World.next] at hstep
    split at hstep
    next =>
      obtain rfl := Option.some.inj hstep
      exact h
    next =>
      obtain rfl := Option.some.inj hstep
      exact h
    next => exact absurd hstep nofun
  | start =>
    obtain ⟨hsame, hqueued⟩ := owner_contents hstep (.inl rfl)
    rw [hsame, hqueued, h]
  | notified =>
    obtain ⟨hsame, hqueued⟩ := owner_contents hstep (.inr (.inl rfl))
    rw [hsame, hqueued, h]
  | expired =>
    obtain ⟨hsame, hqueued⟩ := owner_contents hstep (.inr (.inr (.inl rfl)))
    rw [hsame, hqueued, h]
  | settle outcome =>
    obtain ⟨hsame, hqueued⟩ := owner_contents hstep (.inr (.inr (.inr ⟨outcome, rfl⟩)))
    rw [hsame, hqueued, h]

/-! ### Runs -/

/-- A step under its condition keeps the invariant and is safe. -/
theorem Inv.next (h : w.Inv cfg) {event : Event ρ ε} (hstep : Step cfg w event w')
    (hmeets : Meets cfg w event) : w'.Inv cfg ∧ Safe cfg w w' := by
  have horder : contents w'.state = w'.queued := order_next hstep h.order
  have hnext : (w'.Fresh ∨ w'.Open cfg ∨ w'.Closing ∨ (∃ f, w'.Failed cfg f) ∨ w'.Ended) ∧
      (w.failure ≠ none → w'.state.written = w.state.written) := by
    rcases h.phase with hfresh | hopen | hclosing | ⟨f, hfailed⟩ | hended
    · refine ⟨?_, fun hne => absurd hfresh.failure hne⟩
      exact .inr ((hfresh.next hstep).imp_right fun hended => .inr (.inr hended))
    · refine ⟨?_, fun hne => absurd hopen.failure hne⟩
      exact .inr ((hopen.next hstep hmeets).imp_right (Or.imp_right .inl))
    · exact ⟨.inr (.inr (hclosing.next hstep)), fun hne => absurd hclosing.failure hne⟩
    · obtain ⟨hphase, hwritten⟩ := hfailed.next hstep hmeets
      exact ⟨.inr (.inr (.inr (hphase.imp_left fun hfailed' => ⟨f, hfailed'⟩))), fun _ => hwritten⟩
    · exact (hended.next hstep).elim
  have hinv : w'.Inv cfg := ⟨horder, hnext.1⟩
  exact ⟨hinv, hinv.safe hnext.2⟩

/-- A step that does not meet the condition leaves the producer waiting after a failure. -/
theorem not_safe_of_not_meets (h : w.Inv cfg) {event : Event ρ ε} (hstep : Step cfg w event w')
    (hnot : ¬ Meets cfg w event) : ¬ Safe cfg w w' := by
  intro hsafe
  cases event with
  | queue record =>
    have htask : w.state.ownerTask = some (.raised .cancelled) ∧
        cfg.writerBatchSize ≤ w.state.pendingWrites.length + 1 := by
      by_contra hno
      refine hnot fun htask => ?_
      by_contra hfull
      exact hno ⟨htask, Nat.le_of_not_lt hfull⟩
    obtain ⟨hcancelled, hfull⟩ := htask
    have hensure : w.state.ensure = w.state := by
      rw [Pending.ensure, hcancelled]
      rfl
    have hfailed : w.Failed cfg .cancelled := by
      rcases h.phase with hfresh | hopen | hclosing | ⟨f, hfailed⟩ | hended
      · rw [hfresh.task] at hcancelled
        exact absurd hcancelled nofun
      · rcases hopen.task with ht | ⟨_, ht⟩ | ⟨_, ht⟩ <;> rw [hcancelled] at ht <;>
          exact absurd ht (by simp)
      · rcases hclosing.task with ht | ⟨_, ht⟩ | ⟨_, ht⟩ | ht <;> rw [hcancelled] at ht <;>
          exact absurd ht (by simp)
      · have ht := hfailed.task
        rw [hcancelled, Option.some.injEq, OwnerTask.raised.injEq] at ht
        exact ht ▸ hfailed
      · rw [hended.task] at hcancelled
        exact absurd hcancelled nofun
    dsimp only [Step, World.next] at hstep
    split at hstep
    next =>
      obtain rfl := Option.some.inj hstep
      have hloop : capacityLoop cfg (w.state.append record) = .capacity := by
        unfold capacityLoop
        rw [Pending.append, hensure]
        dsimp only
        rw [if_pos (by rw [List.length_append]; exact hfull), hfailed.error]
        rfl
      have hflushed := (hsafe.raises .cancelled hfailed.failure).2 hloop
      exact absurd hflushed Bool.false_ne_true
    next => exact absurd hstep nofun
  | settle outcome =>
    rcases outcome with _ | e | _
    · exact hnot trivial
    · exact hnot trivial
    · have hwaits : w.producer = .capacity ∧ w.state.flushed = false := by
        by_contra hno
        refine hnot fun hcapacity => ?_
        by_contra hflushed
        exact hno ⟨hcapacity, Bool.eq_false_iff.mpr hflushed⟩
      rcases owner_step hstep (.inr (.inr (.inr ⟨_, rfl⟩))) with ⟨htask, rfl⟩ |
        ⟨timeout, timedOut, htask, rfl⟩ | ⟨batch, outcome, houtcome, htask, rfl⟩
      · simp [Step, World.next, htask] at hstep
      · simp [Step, World.next, htask] at hstep
      · obtain rfl := (Event.settle.inj houtcome).symm
        have hfailure : ∃ f, w.failure.or (some .cancelled) = some f := by
          cases w.failure with
          | none => exact ⟨.cancelled, rfl⟩
          | some f => exact ⟨f, rfl⟩
        obtain ⟨f, hfailure⟩ := hfailure
        have hflushed := (hsafe.raises f hfailure).2 hwaits.1
        exact absurd (hwaits.2.symm.trans hflushed) Bool.false_ne_true
  | _ => exact hnot trivial

/-- A step is safe exactly under its condition. -/
theorem safe_iff_meets (h : w.Inv cfg) {event : Event ρ ε} (hstep : Step cfg w event w') :
    Safe cfg w w' ↔ Meets cfg w event := by
  constructor
  · intro hsafe
    by_contra hnot
    exact not_safe_of_not_meets h hstep hnot hsafe
  · exact fun hmeets => (h.next hstep hmeets).2

/-- Before anything was queued. -/
theorem inv_init : ({} : World ρ ε).Inv cfg :=
  ⟨rfl, .inl ⟨rfl, rfl, rfl, rfl, rfl⟩⟩

/-! ### The end of a run -/

/-- How far the owner is from its end, if its flushes return. -/
def remaining (w : World ρ ε) : ℕ :=
  match w.state.ownerTask with
  | none => 0
  | some task =>
    (match task with
      | .created | .flushing _ => 3
      | .waiting _ => 2
      | .returned | .raised _ => 1) + if w.state.pendingWrites = [] then 0 else 3

/-- `flush_pending_writes` has returned or raised. -/
def Done (w : World ρ ε) : Prop :=
  w.producer = .returned ∨ ∃ failure, w.producer = .raised failure

/-- An owner that has taken a batch has three steps left. -/
theorem remaining_ownerTakes (w : World ρ ε) (s : Pending ρ ε) :
    remaining { w with state := s.ownerTakes } = 3 := rfl

/-- At the head of its loop the owner comes nearer to its end. -/
theorem remaining_head {s : Pending ρ ε} (hstop : s.stop = true) :
    remaining ({ w with state := s.head cfg } : World ρ ε) <
      3 + if s.pendingWrites = [] then 0 else 3 := by
  unfold Pending.head
  split
  next hdone =>
    rw [if_pos hdone.2]
    change 1 + (if s.pendingWrites = [] then 0 else 3) < 3
    rw [if_pos hdone.2]
    decide
  next hmore =>
    have hpending : s.pendingWrites ≠ [] := fun hempty => hmore ⟨hstop, hempty⟩
    rw [if_neg hpending]
    split
    next =>
      rw [remaining_ownerTakes]
      decide
    next =>
      change 2 + (if s.pendingWrites = [] then 0 else 3) < 6
      rw [if_neg hpending]
      decide

/-- The end of a wait brings a stopping owner nearer to its end. -/
theorem remaining_afterWait {s : Pending ρ ε} (hstop : s.stop = true) (timedOut : Bool) :
    remaining ({ w with state := s.afterWait cfg timedOut } : World ρ ε) <
      2 + if s.pendingWrites = [] then 0 else 3 := by
  unfold Pending.afterWait
  dsimp only
  split
  next hpending =>
    rw [remaining_ownerTakes, if_neg hpending.2]
    decide
  next hnot =>
    have hempty : s.pendingWrites = [] := by
      by_contra hpending
      exact hnot ⟨hstop, hpending⟩
    rw [if_neg fun hexpired => hexpired.2 hempty, if_pos hempty, Pending.head,
      if_pos ⟨hstop, hempty⟩]
    change 1 + (if s.pendingWrites = [] then 0 else 3) < 2
    rw [if_pos hempty]
    decide

/-- Once `flush_pending_writes` waits for the owner, the run can be brought to its end. -/
theorem exists_done (h : w.Closing ∨ ∃ f, w.Failed cfg f ∧ w.producer = .joining) :
    ∃ events w', Effect.Runs (Step cfg) w events w' ∧ w'.Done := by
  have hreach : ∃ events w', Effect.Runs (Step cfg) w events w' ∧
      (w'.Closing ∨ (∃ f, w'.Failed cfg f ∧ w'.producer = .joining) ∨ w'.Done) ∧ w'.Done := by
    refine Effect.Runs.reach remaining ?_ (h.imp_right .inl)
    rintro w (hclosing | ⟨f, hfailed, hproducer⟩ | hdone) hnot
    · have hproducer := hclosing.producer
      have hstop := hclosing.stop
      rcases hclosing.task with htask | ⟨timeout, htask⟩ | ⟨batch, htask⟩ | htask
      · have hless : remaining ({ w with state := w.state.head cfg } : World ρ ε) <
            3 + if w.state.pendingWrites = [] then 0 else 3 := remaining_head hstop
        refine ⟨.start, _, ?_, .inl ?_, lt_of_lt_of_eq hless ?_⟩
        · simp only [Step, World.next, htask]
        · exact Closing.head hproducer hclosing.failure hclosing.error hstop hclosing.wakes
        · rw [remaining, htask]
      · have hnotify := hclosing.hears timeout htask
        have hless : remaining ({ w with state := w.state.afterWait cfg false } : World ρ ε) <
            2 + if w.state.pendingWrites = [] then 0 else 3 := remaining_afterWait hstop false
        refine ⟨.notified, _, ?_, .inl (hclosing.afterWait false), lt_of_lt_of_eq hless ?_⟩
        · simp only [Step, World.next, htask, hnotify, if_true]
        · rw [remaining, htask]
      · have hstep : Step cfg w (.settle .done) { w with
            state := w.state.afterFlush cfg .done
            failure := w.failure.or (Outcome.done (ε := ε)).failure } := by
          simp only [Step, World.next, htask]
        have hless : remaining ({ w with
            state := w.state.afterFlush cfg .done
            failure := w.failure.or (Outcome.done (ε := ε)).failure } : World ρ ε) <
            3 + if w.state.pendingWrites = [] then 0 else 3 :=
          remaining_head (w := { w with failure := w.failure.or (Outcome.done (ε := ε)).failure }) hstop
        refine ⟨.settle .done, _, hstep, ?_, lt_of_lt_of_eq hless ?_⟩
        · rcases hclosing.owner hstep (.inr (.inr (.inr ⟨.done, rfl⟩))) with hclosing' | ⟨f, hfailed⟩
          · exact .inl hclosing'
          · exact .inr (.inl ⟨f, hfailed, hproducer⟩)
        · rw [remaining, htask]
      · refine ⟨.join, w.joined none, ?_, ?_, ?_⟩
        · simp only [Step, World.next, hproducer, htask]
        · rw [hclosing.joined_eq htask]
          exact .inr (.inr (.inl rfl))
        · rw [hclosing.joined_eq htask, remaining, remaining, htask]
          exact Nat.add_pos_left Nat.one_pos _
    · have htask := hfailed.task
      refine ⟨.join, w.joined (some f), ?_, ?_, ?_⟩
      · simp only [Step, World.next, hproducer, htask]
      · rw [hfailed.joined_eq]
        exact .inr (.inr (.inr ⟨f, rfl⟩))
      · rw [hfailed.joined_eq, remaining, remaining, htask]
        exact Nat.add_pos_left Nat.one_pos _
    · exact absurd hdone hnot
  obtain ⟨events, w', hrun, -, hdone⟩ := hreach
  exact ⟨events, w', hrun, hdone⟩

/-- The protocol is kept exactly where no flush is cancelled in a way that leaves the producer waiting;
and where it is kept, `flush_pending_writes` can always be brought to its end. -/
theorem protocol_iff (cfg : OwnerConfig) (events : List (Event ρ ε)) (w : World ρ ε) :
    (Effect.Runs (fun w event w' => Step cfg w event w' ∧ Safe cfg w w') {} events w ↔
      Effect.Runs (fun w event w' => Step cfg w event w' ∧ Meets cfg w event) {} events w) ∧
    (Effect.Runs (fun w event w' => Step cfg w event w' ∧ Meets cfg w event) {} events w →
      w.producer = .joining → ∃ later w', Effect.Runs (Step cfg) w later w' ∧ w'.Done) := by
  refine ⟨Effect.Runs.iff_of_invariant inv_init (fun _ _ _ h hstep => safe_iff_meets h hstep)
    (fun _ _ _ h hstep hmeets => (h.next hstep hmeets).1), fun hrun hproducer => exists_done ?_⟩
  have hinv : w.Inv cfg := Effect.Runs.invariant (I := fun _ w => w.Inv cfg) inv_init
    (fun _ _ _ _ h hstep => (h.next hstep.1 hstep.2).1) hrun
  rcases hinv.phase with hfresh | hopen | hclosing | ⟨f, hfailed⟩ | hended
  · exact absurd (hfresh.producer.symm.trans hproducer) (by simp)
  · rcases hopen.producer with hp | hp <;> exact absurd (hp.symm.trans hproducer) (by simp)
  · exact .inl hclosing
  · exact .inr ⟨f, hfailed, hproducer⟩
  · obtain ⟨hp, -⟩ | ⟨f, hp, -⟩ := hended.producer
    · exact absurd (hp.symm.trans hproducer) (by simp)
    · exact absurd (hp.symm.trans hproducer) (by simp)

/-- Batches of two. -/
def pairs : OwnerConfig := ⟨2, 10, by decide, by decide⟩

/-- Two records are queued, and the owner takes them. -/
def twoQueued : List (Event ℕ String) := [.queue 0, .queue 1, .start]

/-- The flush is cancelled, and the producer waits for capacity for ever. -/
theorem not_safe_cancelled :
    (∃ w : World ℕ String,
      Effect.Runs (Step pairs) {} (twoQueued ++ [Event.settle (.raised .cancelled)]) w) ∧
    ¬ ∃ w : World ℕ String, Effect.Runs (fun w event w' => Step pairs w event w' ∧ Safe pairs w w') {}
      (twoQueued ++ [Event.settle (.raised .cancelled)]) w := by
  have hlast : ((twoQueued ++ [Event.settle (.raised .cancelled)]).foldlM (next pairs) {}).map
      (fun w : World ℕ String => (w.producer, w.state.flushed, w.failure)) =
        some (.capacity, false, some .cancelled) := by decide +kernel
  refine ⟨?_, ?_⟩
  · obtain ⟨w, hw, -⟩ := Option.map_eq_some_iff.mp hlast
    exact ⟨w, Effect.Runs.of_foldlM hw⟩
  · rintro ⟨w, hrun⟩
    have hw : (twoQueued ++ [Event.settle (.raised .cancelled)]).foldlM (next pairs) {} = some w :=
      hrun.foldlM_eq fun _ _ _ h => h.1
    rw [hw, Option.map_some, Option.some.injEq, Prod.mk.injEq, Prod.mk.injEq] at hlast
    obtain ⟨hcapacity, hflushed, hfailure⟩ := hlast
    obtain ⟨before, -, -, hsafe⟩ := hrun.last
    have hwoken := (hsafe.raises .cancelled hfailure).2 hcapacity
    exact absurd (hflushed.symm.trans hwoken) (by decide)

end World

end AgoraEtl.PendingOwner
