import AgoraEtl.Sources.RecordBuffer

/-!
# Prefetching through the source queue

`_iter_prefetched_python` pumps the source into a bounded queue of records, ended by the exception
of the source or by a mark; the consumer yields what it takes from the queue. The main theorem says
of both adapters where they are transparent.
-/

namespace AgoraEtl.Prefetch

open Effect

variable {α χ : Type}

/-! ### The producer task and the queue -/

section Queue

/-- What the producer task puts into the queue. -/
inductive QueueItem (α χ : Type) where
  | record (record : SourceRecord α χ)
  | error (exc : Exc)
  | done

/-- The producer task. An exception that its handler does not catch propagates after the last put
(`propagating`); after that put the task is done as soon as it is scheduled again. -/
inductive PumpTask (α χ : Type) where
  | streaming
  | putting (item : SourceRecord α χ)
  | puttingError (exc : Exc)
  | puttingDone (propagating : Option Exc)
  | leaving (propagating : Option Exc)
  | ended (raised : Option Exc)

/-- The state of `_iter_prefetched_python`; the consumer has finished with `some raised`. -/
structure QueueState (α χ : Type) where
  produced : ℕ
  task : PumpTask α χ
  queue : List (QueueItem α χ)
  finished : Option (Option Exc)
  yielded : List (SourceRecord α χ)

/-- The start of `_iter_prefetched_python`. -/
def QueueState.start : QueueState α χ := ⟨0, .streaming, [], none, []⟩

/-- What `_iter_prefetched_python` gave, once it has ended. -/
def QueueState.outcome (s : QueueState α χ) : Option (Streamed α χ) :=
  s.finished.map fun raised => (s.yielded, raised)

/-- The end of the `finally` block, where the generator is leaving with `raised`: a task that is not
done is cancelled, and a cancellation of the task is suppressed. -/
def PumpTask.awaited (task : PumpTask α χ) (raised : Option Exc) : Option Exc :=
  match task with
  | .ended (some exc) => if exc = .cancelled then raised else some exc
  | _ => raised

/-- One step of `_iter_prefetched_python`. -/
inductive QueueStep (source : Source α χ) (prefetchLimit : ℕ) (s : QueueState α χ) :
    Side → QueueState α χ → Prop where
  | produce {record : α} (streaming : s.task = .streaming)
      (produces : source.records[s.produced]? = some record) :
      QueueStep source prefetchLimit s .producer { s with
        produced := s.produced + 1
        task := .putting (source.makeSourceRecord (s.produced + 1) record) }
  | put {item : SourceRecord α χ} (putting : s.task = .putting item)
      (space : s.queue.length < prefetchLimit) :
      QueueStep source prefetchLimit s .producer { s with
        queue := s.queue ++ [.record item]
        task := .streaming }
  | exhausted (streaming : s.task = .streaming) (exhausted : s.produced = source.records.length)
      (normally : source.ending = none) :
      QueueStep source prefetchLimit s .producer { s with task := .puttingDone none }
  | raised {exc : Exc} (streaming : s.task = .streaming)
      (exhausted : s.produced = source.records.length) (raises : source.ending = some exc) :
      QueueStep source prefetchLimit s .producer { s with
        task := if exc.isException then .puttingError exc else .puttingDone (some exc) }
  | putError {exc : Exc} (putting : s.task = .puttingError exc)
      (space : s.queue.length < prefetchLimit) :
      QueueStep source prefetchLimit s .producer { s with
        queue := s.queue ++ [.error exc]
        task := .puttingDone none }
  | putDone {propagating : Option Exc} (putting : s.task = .puttingDone propagating)
      (space : s.queue.length < prefetchLimit) :
      QueueStep source prefetchLimit s .producer { s with
        queue := s.queue ++ [.done]
        task := .leaving propagating }
  | leave {propagating : Option Exc} (leaving : s.task = .leaving propagating) :
      QueueStep source prefetchLimit s .producer { s with task := .ended propagating }
  | getRecord {item : SourceRecord α χ} {queue : List (QueueItem α χ)} (going : s.finished = none)
      (first : s.queue = .record item :: queue) :
      QueueStep source prefetchLimit s .consumer { s with
        queue := queue
        yielded := s.yielded ++ [item] }
  | getError {exc : Exc} {queue : List (QueueItem α χ)} (going : s.finished = none)
      (first : s.queue = .error exc :: queue) :
      QueueStep source prefetchLimit s .consumer { s with
        queue := []
        finished := some (s.task.awaited (some exc)) }
  | getDone {queue : List (QueueItem α χ)} (going : s.finished = none)
      (first : s.queue = .done :: queue) :
      QueueStep source prefetchLimit s .consumer { s with
        queue := []
        finished := some (s.task.awaited none) }

/-! ### What the queue delivers -/

variable {source : Source α χ} {prefetchLimit : ℕ} {s s' : QueueState α χ}

/-- The item of the caught exception. -/
def Source.errorItem (source : Source α χ) : List (QueueItem α χ) :=
  match source.caught with
  | none => []
  | some exc => [.error exc]

/-- The exception that the handler of the producer does not catch. -/
def Source.uncaught (source : Source α χ) : Option Exc :=
  match source.ending with
  | none => none
  | some exc => if exc.isException then none else some exc

/-- All records of a source as items. -/
def Source.items (source : Source α χ) (produced : ℕ) : List (QueueItem α χ) :=
  (source.direct.take produced).map .record

/-- What the producer task has put so far at each of its points. -/
def Sent (source : Source α χ) (s : QueueState α χ) (sent : List (QueueItem α χ)) : Prop :=
  match s.task with
  | .streaming => s.produced ≤ source.records.length ∧ sent = source.items s.produced
  | .putting item =>
    s.produced ≤ source.records.length ∧ sent ++ [.record item] = source.items s.produced
  | .puttingError exc =>
    source.caught = some exc ∧ source.uncaught = none ∧ sent = source.direct.map .record
  | .puttingDone propagating =>
    propagating = source.uncaught ∧ sent = source.direct.map .record ++ source.errorItem
  | .leaving propagating | .ended propagating =>
    propagating = source.uncaught ∧
      sent = source.direct.map .record ++ source.errorItem ++ [.done]

/-- The invariant of `_iter_prefetched_python`: what was put has been yielded or is queued, and at
the end everything has been yielded. -/
structure QueueHolds (source : Source α χ) (s : QueueState α χ) : Prop where
  going : s.finished = none → Sent source s (s.yielded.map .record ++ s.queue)
  finished : ∀ raised, s.finished = some raised →
    s.yielded = source.direct ∧ (raised = source.caught ∨ raised = source.ending)

/-- A task that has not ended loses what it would raise. -/
def QueueState.Unended (s : QueueState α χ) : Prop :=
  ∀ raised, s.task ≠ .ended raised

/-- Where two lists of items go on with something else than a record, they do so at the same
place. -/
theorem records_append_inj {xs ys : List (SourceRecord α χ)} {a b : QueueItem α χ}
    {l l' : List (QueueItem α χ)} (ha : ∀ item, a ≠ .record item) (hb : ∀ item, b ≠ .record item)
    (h : xs.map .record ++ a :: l = ys.map .record ++ b :: l') : xs = ys ∧ a = b ∧ l = l' := by
  induction xs generalizing ys with
  | nil =>
    cases ys with
    | nil =>
      obtain ⟨hhead, htail⟩ := List.cons.inj h
      exact ⟨rfl, hhead, htail⟩
    | cons y ys => exact absurd (List.cons.inj h).1 (ha y)
  | cons x xs ih =>
    cases ys with
    | nil => exact absurd (List.cons.inj h).1.symm (hb x)
    | cons y ys =>
      obtain ⟨hhead, htail⟩ := List.cons.inj h
      obtain ⟨hrecords, hrest⟩ := ih htail
      have hxy : x = y := by injection hhead
      exact ⟨by rw [hxy, hrecords], hrest⟩

/-- A list of records holds nothing else. -/
theorem not_records_of_mem {ys : List (SourceRecord α χ)} {a : QueueItem α χ}
    (ha : ∀ item, a ≠ .record item) (h : a ∈ ys.map QueueItem.record) : False := by
  obtain ⟨item, -, hitem⟩ := List.mem_map.mp h
  exact ha item hitem.symm

theorem Source.uncaught_of_caught {exc : Exc} (h : source.caught = some exc) :
    source.uncaught = none := by
  unfold Source.caught at h
  unfold Source.uncaught
  cases hending : source.ending with
  | none => rfl
  | some exc' =>
    rw [hending] at h
    dsimp only at h ⊢
    by_cases hexception : exc'.isException
    · rw [if_pos hexception]
    · rw [if_neg hexception] at h
      cases h

theorem Source.ending_of_uncaught {exc : Exc} (h : source.uncaught = some exc) :
    source.ending = some exc := by
  unfold Source.uncaught at h
  cases hending : source.ending with
  | none =>
    rw [hending] at h
    cases h
  | some exc' =>
    rw [hending] at h
    dsimp only at h
    by_cases hexception : exc'.isException
    · rw [if_pos hexception] at h
      cases h
    · rw [if_neg hexception] at h
      exact h

/-- The first item that is no record comes after all records: it is the caught exception, or the
end where nothing was caught. -/
theorem Sent.first {xs : List (SourceRecord α χ)} {a : QueueItem α χ} {l : List (QueueItem α χ)}
    (ha : ∀ item, a ≠ .record item) (h : Sent source s (xs.map .record ++ a :: l)) :
    xs = source.direct ∧ ((∃ exc, a = .error exc ∧ source.caught = some exc ∧
        ∀ exc', s.task ≠ .ended (some exc')) ∨
      (a = .done ∧ source.caught = none ∧
        (s.task = .leaving source.uncaught ∨ s.task = .ended source.uncaught))) := by
  have hmem : ∀ more, a ∈ xs.map .record ++ a :: l ++ more := by
    intro more
    simp
  have hsent : ∀ more, xs.map .record ++ a :: l ++ more =
      source.direct.map .record ++ source.errorItem ++ [.done] →
      xs = source.direct ∧ ((∃ exc, a = .error exc ∧ source.caught = some exc) ∨
        (a = .done ∧ source.caught = none ∧ more = [])) := by
    intro more heq
    rw [List.append_assoc, List.cons_append, List.append_assoc] at heq
    unfold Source.errorItem at heq
    cases hcaught : source.caught with
    | none =>
      rw [hcaught] at heq
      obtain ⟨hrecords, hfirst, hrest⟩ := records_append_inj ha (by simp) heq
      exact ⟨hrecords, .inr ⟨hfirst, rfl, (List.append_eq_nil_iff.mp hrest).2⟩⟩
    | some exc =>
      rw [hcaught] at heq
      obtain ⟨hrecords, hfirst, -⟩ := records_append_inj ha (by simp) heq
      exact ⟨hrecords, .inl ⟨exc, hfirst, rfl⟩⟩
  unfold Sent at h
  cases htask : s.task with
  | streaming =>
    rw [htask] at h
    have hin := hmem []
    rw [List.append_nil, h.2] at hin
    exact (not_records_of_mem ha hin).elim
  | putting item =>
    rw [htask] at h
    have hin := hmem [.record item]
    rw [h.2] at hin
    exact (not_records_of_mem ha hin).elim
  | puttingError exc =>
    rw [htask] at h
    have hin := hmem []
    rw [List.append_nil, h.2.2] at hin
    exact (not_records_of_mem ha hin).elim
  | puttingDone propagating =>
    rw [htask] at h
    obtain ⟨hrecords, herror | ⟨-, -, hnil⟩⟩ := hsent [.done] (by rw [h.2])
    · obtain ⟨exc, hexc, hcaught⟩ := herror
      exact ⟨hrecords, .inl ⟨exc, hexc, hcaught, by simp⟩⟩
    · cases hnil
  | leaving propagating =>
    rw [htask] at h
    obtain ⟨hpropagating, hall⟩ := h
    obtain ⟨hrecords, ⟨exc, hexc, hcaught⟩ | ⟨hdone, hcaught, -⟩⟩ :=
      hsent [] (by rw [List.append_nil, hall])
    · exact ⟨hrecords, .inl ⟨exc, hexc, hcaught, by simp⟩⟩
    · exact ⟨hrecords, .inr ⟨hdone, hcaught, .inl (by rw [hpropagating])⟩⟩
  | ended raised =>
    rw [htask] at h
    obtain ⟨hraised, hall⟩ := h
    obtain ⟨hrecords, ⟨exc, hexc, hcaught⟩ | ⟨hdone, hcaught, -⟩⟩ :=
      hsent [] (by rw [List.append_nil, hall])
    · refine ⟨hrecords, .inl ⟨exc, hexc, hcaught, ?_⟩⟩
      intro exc' hended
      rw [source.uncaught_of_caught hcaught] at hraised
      rw [hraised] at hended
      cases hended
    · exact ⟨hrecords, .inr ⟨hdone, hcaught, .inr (by rw [hraised])⟩⟩

theorem PumpTask.awaited_of_unended {task : PumpTask α χ} (h : ∀ exc, task ≠ .ended (some exc))
    (raised : Option Exc) : task.awaited raised = raised := by
  cases task with
  | ended raised' =>
    cases raised' with
    | none => rfl
    | some exc => exact absurd rfl (h exc)
  | _ => rfl

/-- What the generator ends with. -/
theorem awaited_none (hcaught : source.caught = none)
    (htask : s.task = .leaving source.uncaught ∨ s.task = .ended source.uncaught) :
    s.task.awaited none = source.caught ∨ s.task.awaited none = source.ending := by
  rcases htask with htask | htask
  · rw [htask, hcaught]
    exact .inl rfl
  · rw [htask, hcaught]
    cases huncaught : source.uncaught with
    | none => exact .inl rfl
    | some exc =>
      unfold PumpTask.awaited
      by_cases hcancelled : exc = .cancelled
      · exact .inl (if_pos hcancelled)
      · right
        dsimp only
        rw [if_neg hcancelled, source.ending_of_uncaught huncaught]

theorem queueHolds_start (source : Source α χ) : QueueHolds source (.start : QueueState α χ) where
  going := fun _ => ⟨Nat.zero_le _, rfl⟩
  finished := by
    intro raised h
    cases h

theorem queueHolds_producer (hstep : QueueStep source prefetchLimit s .producer s')
    (h : QueueHolds source s) : QueueHolds source s' := by
  have htaken : source.direct.take source.records.length = source.direct :=
    List.take_of_length_le (by simp)
  refine ⟨fun hgoing => ?_, fun raised hraised => ?_⟩
  · have hsent := h.going (by cases hstep <;> exact hgoing)
    unfold Sent at hsent
    cases hstep with
    | produce hstreaming hproduces =>
      rw [hstreaming] at hsent
      refine ⟨(List.getElem?_eq_some_iff.mp hproduces).1, ?_⟩
      rw [hsent.2]
      unfold Source.items
      rw [source.take_direct_succ hproduces, List.map_append]
      rfl
    | put hputting hspace =>
      rw [hputting] at hsent
      refine ⟨hsent.1, ?_⟩
      rw [← hsent.2, List.append_assoc]
    | exhausted hstreaming hover hnormally =>
      rw [hstreaming] at hsent
      unfold Source.items at hsent
      rw [hover, htaken] at hsent
      refine ⟨by simp [Source.uncaught, hnormally], ?_⟩
      rw [hsent.2]
      simp [Source.errorItem, Source.caught, hnormally]
    | @raised exc hstreaming hover hraises =>
      rw [hstreaming] at hsent
      unfold Source.items at hsent
      rw [hover, htaken] at hsent
      unfold Sent
      dsimp only
      by_cases hexception : exc.isException
      · rw [if_pos hexception]
        exact ⟨by simp [Source.caught, hraises, hexception],
          by simp [Source.uncaught, hraises, hexception], hsent.2⟩
      · rw [if_neg hexception]
        refine ⟨by simp [Source.uncaught, hraises, hexception], ?_⟩
        rw [hsent.2]
        simp [Source.errorItem, Source.caught, hraises, hexception]
    | putError hputting hspace =>
      rw [hputting] at hsent
      obtain ⟨hcaught, huncaught, hall⟩ := hsent
      refine ⟨huncaught.symm, ?_⟩
      rw [← List.append_assoc, hall]
      simp [Source.errorItem, hcaught]
    | putDone hputting hspace =>
      rw [hputting] at hsent
      refine ⟨hsent.1, ?_⟩
      rw [← List.append_assoc, hsent.2]
    | leave hleaving =>
      rw [hleaving] at hsent
      exact hsent
  · have hfinished : s.finished = some raised := by cases hstep <;> exact hraised
    have hyielded : s'.yielded = s.yielded := by cases hstep <;> rfl
    rw [hyielded]
    exact h.finished raised hfinished

theorem queueHolds_consumer (hstep : QueueStep source prefetchLimit s .consumer s')
    (h : QueueHolds source s) : QueueHolds source s' := by
  cases hstep with
  | @getRecord item queue hgoing hfirst =>
    have hsent := h.going hgoing
    refine ⟨fun _ => ?_, fun raised hraised => ?_⟩
    · have hsame : (s.yielded ++ [item]).map .record ++ queue =
          s.yielded.map .record ++ s.queue := by
        simp [hfirst]
      unfold Sent at hsent ⊢
      dsimp only
      rw [hsame]
      exact hsent
    · rw [hgoing] at hraised
      cases hraised
  | getError hgoing hfirst =>
    have hsent := h.going hgoing
    rw [hfirst] at hsent
    obtain ⟨hall, ⟨exc, hexc, hcaught, htask⟩ | ⟨hdone, -⟩⟩ := hsent.first (by simp)
    · refine ⟨nofun, fun raised hraised => ⟨hall, .inl ?_⟩⟩
      cases hexc
      rw [← Option.some.inj hraised, PumpTask.awaited_of_unended htask, hcaught]
    · cases hdone
  | getDone hgoing hfirst =>
    have hsent := h.going hgoing
    rw [hfirst] at hsent
    obtain ⟨hall, ⟨exc, hexc, -⟩ | ⟨-, hcaught, htask⟩⟩ := hsent.first (by simp)
    · cases hexc
    · refine ⟨nofun, fun raised hraised => ⟨hall, ?_⟩⟩
      rw [← Option.some.inj hraised]
      exact awaited_none hcaught htask

theorem QueueHolds.step {side : Side} (h : QueueHolds source s)
    (hstep : QueueStep source prefetchLimit s side s') : QueueHolds source s' := by
  cases side with
  | producer => exact queueHolds_producer hstep h
  | consumer => exact queueHolds_consumer hstep h

/-- What the producer task has still to do. -/
def PumpTask.work : PumpTask α χ → ℕ
  | .putting _ => 8
  | .streaming => 6
  | .puttingError _ => 5
  | .puttingDone _ => 3
  | .leaving _ => 1
  | .ended _ => 0

/-- A measure of the way to the end. -/
def QueueState.work (source : Source α χ) (s : QueueState α χ) : ℕ :=
  4 * (source.records.length - s.produced) + s.task.work + s.queue.length +
    if s.finished.isNone then 1 else 0

/-- A generator that is still going, with a task that has not ended, or one that left with the
caught exception. -/
structure Prompt (source : Source α χ) (s : QueueState α χ) : Prop where
  going : s.finished = none → s.Unended
  finished : ∀ raised, s.finished = some raised → raised = source.caught

/-- A step that leaves the generator going. -/
theorem Prompt.of_going {s' : QueueState α χ} (hgoing : s.finished = none)
    (hgoing' : s'.finished = none) (hunended : s.Unended → s'.Unended) (h : Prompt source s) :
    Prompt source s' := by
  refine ⟨fun _ => hunended (h.going hgoing), fun raised hraised => ?_⟩
  rw [hgoing'] at hraised
  cases hraised

/-- With an item in the queue the generator can take it. -/
theorem QueueHolds.consumer_goes_on (h : QueueHolds source s) (hgoing : s.finished = none)
    {item : QueueItem α χ} {queue : List (QueueItem α χ)} (hqueue : s.queue = item :: queue) :
    ∃ s', QueueStep source prefetchLimit s .consumer s' ∧ s'.work source < s.work source ∧
      (Prompt source s → Prompt source s') := by
  have hsent := h.going hgoing
  cases item with
  | record item =>
    refine ⟨_, .getRecord hgoing hqueue, ?_, Prompt.of_going hgoing hgoing fun hunended => hunended⟩
    simp [QueueState.work, hqueue]
  | error exc =>
    rw [hqueue] at hsent
    obtain ⟨-, ⟨exc', hexc, hcaught, htask⟩ | ⟨hdone, -⟩⟩ := hsent.first (by simp)
    · refine ⟨_, .getError hgoing hqueue, ?_, fun _ => ⟨nofun, ?_⟩⟩
      · simp only [QueueState.work, hqueue, hgoing, List.length_cons, List.length_nil,
          Option.isNone_none, Option.isNone_some, Bool.false_eq_true, if_true, if_false]
        omega
      · intro raised hraised
        cases hexc
        rw [← Option.some.inj hraised, PumpTask.awaited_of_unended htask, hcaught]
    · cases hdone
  | done =>
    rw [hqueue] at hsent
    obtain ⟨-, ⟨exc, hexc, -⟩ | ⟨-, hcaught, -⟩⟩ := hsent.first (by simp)
    · cases hexc
    · refine ⟨_, .getDone hgoing hqueue, ?_, fun hprompt => ⟨nofun, ?_⟩⟩
      · simp only [QueueState.work, hqueue, hgoing, List.length_cons, List.length_nil,
          Option.isNone_none, Option.isNone_some, Bool.false_eq_true, if_true, if_false]
        omega
      · intro raised hraised
        have hunended := hprompt.going hgoing
        rw [← Option.some.inj hraised,
          PumpTask.awaited_of_unended fun exc => hunended (some exc), hcaught]

/-- With an empty queue the task can go on: it has not put the end, as nobody has taken it. -/
theorem QueueHolds.producer_goes_on (hlimit : 0 < prefetchLimit) (h : QueueHolds source s)
    (hgoing : s.finished = none) (hqueue : s.queue = []) :
    ∃ s', QueueStep source prefetchLimit s .producer s' ∧ s'.work source < s.work source ∧
      (Prompt source s → Prompt source s') := by
  have hsent := h.going hgoing
  have hspace : s.queue.length < prefetchLimit := by
    rw [hqueue]
    exact hlimit
  have hleft : ∀ sent, sent = source.direct.map .record ++ source.errorItem ++ [.done] →
      s.yielded.map .record ++ s.queue = sent → False := by
    intro sent hall hsame
    have hmem : QueueItem.done ∈ s.yielded.map QueueItem.record := by
      rw [hqueue, List.append_nil] at hsame
      rw [hsame, hall]
      simp
    exact not_records_of_mem (by simp) hmem
  unfold Sent at hsent
  cases htask : s.task with
  | streaming =>
    rw [htask] at hsent
    by_cases hover : s.produced = source.records.length
    · cases hending : source.ending with
      | none =>
        refine ⟨_, .exhausted htask hover hending, ?_,
          Prompt.of_going hgoing hgoing fun _ => by simp [QueueState.Unended]⟩
        simp [QueueState.work, htask, PumpTask.work]
      | some exc =>
        refine ⟨_, .raised htask hover hending, ?_, Prompt.of_going hgoing hgoing fun _ => ?_⟩
        · simp only [QueueState.work, htask]
          split_ifs <;> simp [PumpTask.work]
        · unfold QueueState.Unended
          dsimp only
          split_ifs <;> simp
    · have hlt : s.produced < source.records.length := by omega
      refine ⟨_, .produce htask (List.getElem?_eq_getElem hlt), ?_,
        Prompt.of_going hgoing hgoing fun _ => by simp [QueueState.Unended]⟩
      simp only [QueueState.work, htask, PumpTask.work]
      omega
  | putting item =>
    refine ⟨_, .put htask hspace, ?_,
      Prompt.of_going hgoing hgoing fun _ => by simp [QueueState.Unended]⟩
    simp only [QueueState.work, htask, PumpTask.work, List.length_append, List.length_singleton]
    omega
  | puttingError exc =>
    refine ⟨_, .putError htask hspace, ?_,
      Prompt.of_going hgoing hgoing fun _ => by simp [QueueState.Unended]⟩
    simp only [QueueState.work, htask, PumpTask.work, List.length_append, List.length_singleton]
    omega
  | puttingDone propagating =>
    refine ⟨_, .putDone htask hspace, ?_,
      Prompt.of_going hgoing hgoing fun _ => by simp [QueueState.Unended]⟩
    simp only [QueueState.work, htask, PumpTask.work, List.length_append, List.length_singleton]
    omega
  | leaving propagating =>
    rw [htask] at hsent
    exact (hleft _ hsent.2 rfl).elim
  | ended raised =>
    rw [htask] at hsent
    exact (hleft _ hsent.2 rfl).elim

/-- While the generator is going, one of the two sides can go on, and the task need not end. -/
theorem QueueHolds.goes_on (hlimit : 0 < prefetchLimit) (h : QueueHolds source s)
    (hgoing : s.finished = none) :
    ∃ side s', QueueStep source prefetchLimit s side s' ∧ s'.work source < s.work source ∧
      (Prompt source s → Prompt source s') := by
  cases hqueue : s.queue with
  | cons item queue => exact ⟨.consumer, h.consumer_goes_on hgoing hqueue⟩
  | nil => exact ⟨.producer, h.producer_goes_on hlimit hgoing hqueue⟩

theorem queueHolds_run {labels : List Side}
    (hrun : Runs (QueueStep source prefetchLimit) .start labels s) : QueueHolds source s :=
  hrun.invariant (I := fun _ s => QueueHolds source s) (queueHolds_start source)
    fun _ _ _ _ hholds hstep => hholds.step hstep

/-- A run can be completed, and promptly if it has been prompt. -/
theorem QueueHolds.completes (hlimit : 0 < prefetchLimit) (h : QueueHolds source s)
    {P : Prop} (hprompt : P → Prompt source s) :
    ∃ labels s', Runs (QueueStep source prefetchLimit) s labels s' ∧
      (QueueHolds source s' ∧ (P → Prompt source s')) ∧ s'.finished.isSome := by
  refine Runs.reach (QueueState.work source) (fun s hs hgoing => ?_) ⟨h, hprompt⟩
  obtain ⟨hholds, hprompt⟩ := hs
  obtain ⟨side, s', hstep, hlt, hkept⟩ :=
    hholds.goes_on hlimit (Option.not_isSome_iff_eq_none.mp hgoing)
  exact ⟨side, s', hstep, ⟨hholds.step hstep, fun hp => hkept (hprompt hp)⟩, hlt⟩

/-- The adapter with the queue is transparent exactly where its handler catches what the source
raises. -/
theorem streams_queue_iff (hlimit : 0 < prefetchLimit) :
    Streams (QueueStep source prefetchLimit) .start QueueState.outcome source.streamed ↔
      ∀ exc, source.ending = some exc → exc.isException = true := by
  constructor
  · intro hstreams exc hending
    by_contra hexception
    -- a prompt run loses the exception
    have hstart : Prompt source (.start : QueueState α χ) :=
      ⟨fun _ => by simp [QueueState.Unended, QueueState.start], nofun⟩
    obtain ⟨labels, s, hrun, ⟨-, hprompt⟩, hsome⟩ :=
      (queueHolds_start source).completes hlimit (P := True) fun _ => hstart
    obtain ⟨raised, hraised⟩ := Option.isSome_iff_exists.mp hsome
    have houtcome : s.outcome = some (s.yielded, raised) := by
      simp [QueueState.outcome, hraised]
    have hgiven := (hstreams labels s hrun).1 _ houtcome
    have hnone : source.caught = none := by
      simp [Source.caught, hending, hexception]
    have hmismatch : raised = source.ending := congrArg Prod.snd hgiven
    rw [(hprompt trivial).finished raised hraised, hnone, hending] at hmismatch
    cases hmismatch
  · intro hexception labels s hrun
    have hholds := queueHolds_run hrun
    have hcaught : source.caught = source.ending := by
      unfold Source.caught
      cases hending : source.ending with
      | none => rfl
      | some exc =>
        dsimp only
        rw [if_pos (hexception exc hending)]
    refine ⟨fun given hgiven => ?_, ?_⟩
    · unfold QueueState.outcome at hgiven
      obtain ⟨raised, hraised, rfl⟩ := Option.map_eq_some_iff.mp hgiven
      obtain ⟨hyielded, hended⟩ := hholds.finished raised hraised
      rw [hcaught, or_self] at hended
      rw [hyielded, hended]
      rfl
    · obtain ⟨labels', s', hrun', -, hsome⟩ :=
        hholds.completes hlimit (P := False) fun hfalse => hfalse.elim
      exact ⟨labels', s', hrun', by simpa [QueueState.outcome] using hsome⟩

end Queue

/-! ### Both adapters -/

/-- **Prefetch.** For every source and every prefetch limit from one on, the adapter with the queue
is transparent if and only if what the source raises, if anything, is an `Exception`; the adapter
with the record buffer if and only if, besides, the number of records before the exception is a
multiple of the limit. -/
theorem prefetch_transparent_iff (source : Source α χ) {prefetchLimit : ℕ}
    (hlimit : 0 < prefetchLimit) :
    (Streams (RustStep source prefetchLimit) .start RustState.outcome source.streamed ↔
      ∀ exc, source.ending = some exc →
        exc.isException = true ∧ prefetchLimit ∣ source.records.length) ∧
    (Streams (QueueStep source prefetchLimit) .start QueueState.outcome source.streamed ↔
      ∀ exc, source.ending = some exc → exc.isException = true) := by
  refine ⟨?_, streams_queue_iff hlimit⟩
  rw [← streamed_eq_iff]
  constructor
  · intro hstreams
    exact hstreams.unique (streams_rust hlimit)
  · intro heq
    rw [heq]
    exact streams_rust hlimit

/-- A source that reads some numbers and then fails; its checkpoint is the number of records. -/
def numbersThenError (numbers : List ℕ) : Source ℕ ℕ where
  records := numbers
  ending := some (.runtimeError "connection reset")
  checkpointCapable := true
  hasDeliveryHook := false
  currentCheckpoint := some
  deliveryCallback := fun _ => []

/-- Two records fill one batch of the record buffer, and both adapters are transparent. -/
theorem prefetch_transparent_fullBatch :
    Streams (RustStep (numbersThenError [7, 8]) 2) .start RustState.outcome
        (numbersThenError [7, 8]).streamed ∧
      Streams (QueueStep (numbersThenError [7, 8]) 2) .start QueueState.outcome
        (numbersThenError [7, 8]).streamed := by
  obtain ⟨hrust, hqueue⟩ := prefetch_transparent_iff (numbersThenError [7, 8]) (by decide : 0 < 2)
  refine ⟨hrust.mpr ?_, hqueue.mpr ?_⟩
  · rintro exc ⟨⟩
    exact ⟨rfl, by decide⟩
  · rintro exc ⟨⟩
    rfl

/-- One record does not fill the batch: the error is raised, and the record before it is lost. -/
theorem prefetch_loses_pendingBatch :
    ∃ labels s, Runs (RustStep (numbersThenError [7]) 2) .start labels s ∧
      s.outcome = some ([], some (.runtimeError "connection reset")) ∧
      (numbersThenError [7]).streamed =
        ([⟨7, some 1, []⟩], some (.runtimeError "connection reset")) := by
  have hread : Runs (RustStep (numbersThenError [7]) 2) .start [.producer] _ :=
    Runs.snoc .start (.read rfl rfl)
  have hraised := hread.snoc (.raised rfl rfl rfl)
  have hclosed := hraised.snoc (.close rfl)
  have hnothing := hclosed.snoc (.nothing rfl rfl)
  have hdone := hnothing.snoc (.isDone rfl)
  have hjoined := hdone.snoc (.join rfl)
  exact ⟨_, _, hjoined, rfl, rfl⟩

end AgoraEtl.Prefetch
