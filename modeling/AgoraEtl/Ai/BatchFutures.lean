import AgoraEtl.Effect.Runs
import Mathlib.Data.List.Perm.Basic
import Mathlib.Data.List.Range

/-!
# The futures of the AI batch middleware

Records wait in a queue with their futures.  The flush loop, a task for full batches, `drain_pending`
and `on_stop` flush the queue, one at a time under a lock: a flusher takes a batch out of the queue, waits
for the provider, and completes the futures of the batch.

`futures_iff` says in which runs no future is lost.
-/

namespace AgoraEtl.AiBatch

/-! ### One batch -/

/-- `OnError`. -/
inductive OnError where
  | passthrough
  | drop
  | raise
  deriving DecidableEq

/-- What the provider comes to: it raises, or the content of its response is no JSON, or it is that of
an array. -/
inductive Answer (E : Type) where
  | raised (exc : String)
  | invalid (exc : String)
  | values (values : List E)

/-- The arguments of `AIBatchMiddleware`; `merge` takes the output fields of an enrichment into a
record. -/
structure AIBatchMiddleware (T E : Type) where
  batchSize : ℕ
  batchSize_pos : 0 < batchSize
  onError : OnError
  merge : T → E → Except String T

variable {T E : Type} (m : AIBatchMiddleware T E)

/-- `_process_batch`, from the answer of the provider on. -/
def processBatch (records : List T) : Answer E → Except String (List T)
  | .raised exc => .error exc
  | .invalid exc => .error exc
  | .values values =>
    if values.length ≠ records.length then
      .error ("LLM returned " ++ toString values.length ++ " results for " ++
        toString records.length ++ " records")
    else (records.zip values).mapM fun pair => m.merge pair.1 pair.2

/-- What `_handle_error` returns if it does not raise. -/
def fallback (record : T) : Option T := if m.onError = .drop then none else some record

/-! ### The state -/

/-- Who flushes. -/
inductive Flusher where
  | loop
  | size
  | drain
  | stop
  deriving DecidableEq

/-- Where `on_stop` is. -/
inductive StopState where
  | notCalled
  | called
  | draining
  | cancellingLoop
  | cancellingSize
  | finishing
  | stopped
  | failed
  deriving DecidableEq

/-- The records that were submitted, whose positions are the names of their futures; the queue; the
flusher that has the lock, with its batch, and those that wait for it; the futures that are completed; and
the batches that were answered. -/
structure World (T E : Type) where
  started : Bool
  records : List T
  queue : List (ℕ × T)
  holder : Option (Flusher × List (ℕ × T))
  waiting : List Flusher
  loopAlive : Bool
  stop : StopState
  completed : List (ℕ × Option T)
  answered : List (List (ℕ × T) × Answer E)

/-- After `on_start`, or without it. -/
def World.start (started : Bool) : World T E where
  started := started
  records := []
  queue := []
  holder := none
  waiting := []
  loopAlive := started
  stop := .notCalled
  completed := []
  answered := []

/-- The batch of the flusher that has the lock. -/
def World.batch (w : World T E) : List (ℕ × T) := (w.holder.map Prod.snd).getD []

/-- A flusher of this kind is at work. -/
def World.active (w : World T E) (k : Flusher) : Bool :=
  w.waiting.contains k || (w.holder.map Prod.fst == some k)

/-- `set_result`, for futures that are not done. -/
def complete (completed : List (ℕ × Option T)) (results : List (ℕ × Option T)) :
    List (ℕ × Option T) :=
  results.foldl (fun done result =>
    if result.1 ∈ done.map Prod.fst then done else done ++ [result]) completed

/-- The flusher returns, and releases the lock. -/
def returned (k : Flusher) (w : World T E) : World T E :=
  { w with holder := none, stop := if k = .stop then .cancellingLoop else w.stop }

/-- The flusher raises: the flush loop ends, and so does `on_stop`. -/
def raised (k : Flusher) (w : World T E) : World T E :=
  { w with
    holder := none
    loopAlive := if k = .loop then false else w.loopAlive
    stop := if k = .stop then .failed else w.stop }

/-- The flusher is cancelled, and what it has of a batch is gone. -/
def cancelled (k : Flusher) (w : World T E) : World T E :=
  { w with
    waiting := w.waiting.filter (· ≠ k)
    holder := w.holder.filter fun holder => holder.1 ≠ k }

/-- The loop of `_flush_pending`, under the lock. -/
def flush (k : Flusher) (w : World T E) : World T E :=
  if w.queue.isEmpty || (k = .size && w.queue.length < m.batchSize) then returned k w
  else
    { w with
      queue := w.queue.drop m.batchSize
      holder := some (k, w.queue.take m.batchSize) }

/-! ### Steps -/

/-- What can happen: a call of `submit`, the end of a sleep of the flush loop, a call of
`drain_pending`, a flusher that gets the lock, an answer of the provider, and the parts of `on_stop`. -/
inductive Label (T E : Type) where
  | submit (record : T)
  | tick
  | drain
  | acquire (k : Flusher)
  | answer (a : Answer E)
  | onStop
  | stopDrain
  | cancelLoop
  | cancelSize
  | finish

/-- `submit`. -/
def submit (w : World T E) (record : T) : World T E :=
  let future := w.records.length
  if w.started then
    { w with
      records := w.records ++ [record]
      queue := w.queue ++ [(future, record)]
      waiting :=
        if m.batchSize ≤ w.queue.length + 1 ∧ w.active .size = false then w.waiting ++ [.size]
        else w.waiting }
  else
    { w with
      records := w.records ++ [record]
      completed := w.completed ++ [(future, some record)] }

/-- The flusher that has the lock gets an answer; `_ctx` is gone once `on_stop` is through, and then
`_handle_error` raises whatever the policy. -/
def answer (w : World T E) (k : Flusher) (batch : List (ℕ × T)) (a : Answer E) : World T E :=
  let w := { w with answered := w.answered ++ [(batch, a)] }
  match processBatch m (batch.map Prod.snd) a with
  | .ok results =>
    flush m k { w with
      completed := complete w.completed ((batch.map Prod.fst).zip (results.map some)) }
  | .error _ =>
    if (m.onError = .raise ∨ w.stop = .stopped) ∧ ∃ entry ∈ batch, entry.1 ∉ w.completed.map Prod.fst
    then raised k w
    else flush m k { w with
      completed := complete w.completed (batch.map fun entry => (entry.1, fallback m entry.2)) }

def next (w : World T E) : Label T E → Option (World T E)
  | .submit record => some (submit m w record)
  | .tick =>
    if w.loopAlive = true ∧ w.active .loop = false then
      some (if w.queue.isEmpty then w else { w with waiting := w.waiting ++ [.loop] })
    else none
  | .drain => some (if w.queue.isEmpty then w else { w with waiting := w.waiting ++ [.drain] })
  | .acquire k =>
    if w.holder = none ∧ k ∈ w.waiting then
      some (flush m k { w with waiting := w.waiting.erase k })
    else none
  | .answer a => w.holder.map fun holder => answer m w holder.1 holder.2 a
  | .onStop => if w.stop = .notCalled then some { w with stop := .called } else none
  | .stopDrain =>
    if w.stop = .called then
      some (if w.queue.isEmpty then { w with stop := .cancellingLoop }
        else { w with waiting := w.waiting ++ [.stop], stop := .draining })
    else none
  | .cancelLoop =>
    if w.stop = .cancellingLoop then
      some { cancelled .loop w with loopAlive := false, stop := .cancellingSize }
    else none
  | .cancelSize =>
    if w.stop = .cancellingSize then some { cancelled .size w with stop := .finishing } else none
  | .finish =>
    if w.stop = .finishing then
      some { w with
        completed := complete w.completed (w.queue.map fun entry => (entry.1, some entry.2))
        queue := []
        stop := .stopped }
    else none

def Step (w : World T E) (label : Label T E) (w' : World T E) : Prop := next m w label = some w'

/-! ### What runs are held to -/

/-- The answer for a batch completes the future with this: the result at its place, or the fallback for
its record. -/
def Resolves (batch : List (ℕ × T)) (a : Answer E) (future : ℕ) (record : T) (value : Option T) :
    Prop :=
  ∃ i : ℕ, batch[i]? = some (future, record) ∧
    match processBatch m (batch.map Prod.snd) a with
    | .ok results => ∃ result, results[i]? = some result ∧ value = some result
    | .error _ => m.onError ≠ .raise ∧ value = fallback m record

/-- The future was completed by an answer, or with its record if it was in no batch. -/
def Right (w : World T E) (future : ℕ) (value : Option T) : Prop :=
  ∃ record, w.records[future]? = some record ∧
    ((∃ entry ∈ w.answered, Resolves m entry.1 entry.2 future record value) ∨
      ((∀ entry ∈ w.answered, future ∉ entry.1.map Prod.fst) ∧ value = some record))

/-- Every future is completed, once and rightly, or is in the queue or in the batch that a flusher has
taken; and none is there after `on_stop`. -/
structure Accounted (w : World T E) : Prop where
  once : (w.completed.map Prod.fst ++ w.queue.map Prod.fst ++ w.batch.map Prod.fst).Perm
    (List.range w.records.length)
  own : ∀ entry ∈ w.queue ++ w.batch, w.records[entry.1]? = some entry.2
  right : ∀ entry ∈ w.completed, Right m w entry.1 entry.2
  answered : ∀ entry ∈ w.answered, ∀ future ∈ entry.1.map Prod.fst, future ∈ w.completed.map Prod.fst
  busy : ∀ k batch, w.holder = some (k, batch) → batch ≠ []
  stopped : w.stop = .stopped → w.queue = [] ∧ w.holder = none

/-- A batch that fails does so under another policy than `RAISE`; no flusher is cancelled that has a
batch; none has one when `on_stop` ends; and nothing is submitted after that. -/
def Meets (w : World T E) : Label T E → Prop
  | .submit _ => w.started = true → w.stop ≠ .stopped
  | .answer a => ∀ k batch exc, w.holder = some (k, batch) →
      processBatch m (batch.map Prod.snd) a = .error exc → m.onError ≠ .raise
  | .cancelLoop => ∀ batch, w.holder ≠ some (.loop, batch)
  | .cancelSize => ∀ batch, w.holder ≠ some (.size, batch)
  | .finish => w.holder = none
  | _ => True

/-! ### Completing futures -/

variable {m} {w w' : World T E}

/-- Futures that are not completed yet are completed with the results. -/
theorem complete_eq {completed results : List (ℕ × Option T)}
    (h : (completed.map Prod.fst ++ results.map Prod.fst).Nodup) :
    complete completed results = completed ++ results := by
  induction results generalizing completed with
  | nil => rw [complete, List.foldl_nil, List.append_nil]
  | cons result results ih =>
    have hnew : result.1 ∉ completed.map Prod.fst := by
      intro hmem
      rw [List.map_cons, List.nodup_append] at h
      exact h.2.2 result.1 hmem result.1 List.mem_cons_self rfl
    have hnodup : ((completed ++ [result]).map Prod.fst ++ results.map Prod.fst).Nodup := by
      simpa using h
    have hrest := ih hnodup
    rw [List.append_assoc] at hrest
    rw [complete, List.foldl_cons, if_neg hnew]
    exact hrest

/-- Merged results are as many as the pairs. -/
theorem mapM_merge_ok {pairs : List (T × E)} {results : List T}
    (h : (pairs.mapM fun pair => m.merge pair.1 pair.2) = .ok results) :
    results.length = pairs.length := by
  induction pairs generalizing results with
  | nil =>
    obtain rfl := Except.ok.inj h
    rfl
  | cons pair pairs ih =>
    rw [List.mapM_cons] at h
    cases hmerge : m.merge pair.1 pair.2 with
    | error exc =>
      rw [hmerge] at h
      exact absurd h nofun
    | ok result =>
      rw [hmerge] at h
      cases hrest : pairs.mapM fun pair => m.merge pair.1 pair.2 with
      | error exc =>
        rw [hrest] at h
        exact absurd h nofun
      | ok rest =>
        rw [hrest] at h
        obtain rfl := Except.ok.inj h
        rw [List.length_cons, List.length_cons, ih hrest]

/-- A batch that succeeds has a result for every record. -/
theorem length_of_processBatch {records : List T} {a : Answer E} {results : List T}
    (h : processBatch m records a = .ok results) : results.length = records.length := by
  cases a with
  | raised exc => exact absurd h nofun
  | invalid exc => exact absurd h nofun
  | values values =>
    rw [processBatch] at h
    split at h
    next => exact absurd h nofun
    next hlength =>
      rw [mapM_merge_ok h, List.length_zip, not_ne_iff.mp hlength, Nat.min_self]

/-! ### What is accounted for -/

/-- No future is in two places. -/
theorem Accounted.nodup (h : Accounted m w) :
    (w.completed.map Prod.fst ++ w.queue.map Prod.fst ++ w.batch.map Prod.fst).Nodup :=
  h.once.nodup_iff.mpr List.nodup_range

/-- A completed future is one of a submitted record. -/
theorem Accounted.lt_of_mem (h : Accounted m w) {future : ℕ}
    (hmem : future ∈ w.completed.map Prod.fst) : future < w.records.length :=
  List.mem_range.mp (h.once.mem_iff.mp (List.mem_append_left _ (List.mem_append_left _ hmem)))

/-- Nothing is lost as long as these parts stay, and `on_stop` does not end. -/
theorem Accounted.congr (h : Accounted m w) (hrecords : w'.records = w.records)
    (hqueue : w'.queue = w.queue) (hholder : w'.holder = w.holder)
    (hcompleted : w'.completed = w.completed) (hanswered : w'.answered = w.answered)
    (hstop : w'.stop = .stopped → w.stop = .stopped) : Accounted m w' := by
  have hbatch : w'.batch = w.batch := by rw [World.batch, World.batch, hholder]
  have hright : Right m w' = Right m w := by
    unfold Right
    rw [hrecords, hanswered]
  constructor
  · rw [hcompleted, hqueue, hbatch, hrecords]
    exact h.once
  · rw [hqueue, hbatch, hrecords]
    exact h.own
  · rw [hcompleted, hright]
    exact h.right
  · rw [hanswered, hcompleted]
    exact h.answered
  · rw [hholder]
    exact h.busy
  · rw [hqueue, hholder]
    exact fun hstopped => h.stopped (hstop hstopped)

/-- A flusher that goes on takes a batch out of the queue, or nothing. -/
theorem accounted_flush {k : Flusher} (h : Accounted m w) (hnone : w.holder = none) :
    Accounted m (flush m k w) := by
  have hbatch : w.batch = [] := by rw [World.batch, hnone]; rfl
  unfold flush
  split
  next =>
    refine h.congr rfl rfl hnone.symm rfl rfl ?_
    dsimp only [returned]
    split
    next => exact nofun
    next => exact id
  next hmore =>
    have hqueue : w.queue ≠ [] := by
      intro hempty
      exact hmore (by rw [hempty]; rfl)
    have honce := h.once
    have hown := h.own
    rw [hbatch, List.map_nil, List.append_nil] at honce
    rw [hbatch, List.append_nil] at hown
    refine ⟨?_, ?_, h.right, h.answered, ?_, ?_⟩
    · have hparts : ((w.queue.drop m.batchSize).map Prod.fst ++
          (w.queue.take m.batchSize).map Prod.fst).Perm (w.queue.map Prod.fst) := by
        rw [← List.map_append]
        conv => rhs; rw [← List.take_append_drop m.batchSize w.queue]
        exact List.perm_append_comm.map _
      rw [List.append_assoc]
      exact (hparts.append_left _).trans honce
    · intro entry hentry
      obtain hentry | hentry := List.mem_append.mp hentry
      · exact hown entry (List.mem_of_mem_drop hentry)
      · exact hown entry (List.mem_of_mem_take hentry)
    · rintro _ _ ⟨⟩ htake
      obtain hzero | hempty := List.take_eq_nil_iff.mp htake
      · exact absurd hzero m.batchSize_pos.ne'
      · exact hqueue hempty
    · exact fun hstopped => absurd (h.stopped hstopped).1 hqueue

/-- The futures of a batch are completed by its answer. -/
theorem accounted_resolved {k : Flusher} {batch : List (ℕ × T)} {a : Answer E}
    {results : List (ℕ × Option T)} (h : Accounted m w) (hholder : w.holder = some (k, batch))
    (hfutures : results.map Prod.fst = batch.map Prod.fst)
    (hresolves : ∀ entry ∈ results, ∃ record, (entry.1, record) ∈ batch ∧
      Resolves m batch a entry.1 record entry.2) :
    Accounted m { w with
      answered := w.answered ++ [(batch, a)]
      completed := complete w.completed results
      holder := none } := by
  have hbatch : w.batch = batch := by rw [World.batch, hholder]; rfl
  have hnodup := h.nodup
  rw [hbatch, List.append_assoc, (List.perm_append_comm.append_left _).nodup_iff,
    ← List.append_assoc] at hnodup
  have hboth := (List.nodup_append.mp hnodup).1
  have hcomplete : complete w.completed results = w.completed ++ results := by
    apply complete_eq
    rw [hfutures]
    exact hboth
  have hdisjoint : ∀ future ∈ w.completed.map Prod.fst, future ∉ batch.map Prod.fst := by
    intro future hdone hmem
    exact (List.nodup_append.mp hboth).2.2 future hdone future hmem rfl
  rw [hcomplete]
  refine ⟨?_, ?_, ?_, ?_, fun _ _ hsome => absurd hsome nofun, ?_⟩
  · have honce := h.once
    rw [hbatch] at honce
    change ((w.completed ++ results).map Prod.fst ++ w.queue.map Prod.fst ++ []).Perm _
    rw [List.map_append, hfutures, List.append_nil, List.append_assoc]
    rw [List.append_assoc] at honce
    exact (List.perm_append_comm.append_left _).trans honce
  · intro entry hentry
    apply h.own
    exact List.mem_append_left _ (by simpa [World.batch] using hentry)
  · intro entry hentry
    obtain hentry | hentry := List.mem_append.mp hentry
    · obtain ⟨record, hrecord, ⟨answered, hmem, hresolved⟩ | ⟨hnone, hvalue⟩⟩ := h.right entry hentry
      · exact ⟨record, hrecord, Or.inl ⟨answered, List.mem_append_left _ hmem, hresolved⟩⟩
      · refine ⟨record, hrecord, Or.inr ⟨?_, hvalue⟩⟩
        intro answered hmem
        obtain hmem | hmem := List.mem_append.mp hmem
        · exact hnone answered hmem
        · obtain rfl := List.mem_singleton.mp hmem
          exact hdisjoint entry.1 (List.mem_map_of_mem hentry)
    · obtain ⟨record, hmem, hresolved⟩ := hresolves entry hentry
      have hrecord : w.records[entry.1]? = some record :=
        h.own (entry.1, record) (List.mem_append_right _ (by rwa [hbatch]))
      exact ⟨record, hrecord, Or.inl ⟨(batch, a), by simp, hresolved⟩⟩
  · intro answered hmem future hfuture
    rw [List.map_append]
    obtain hmem | hmem := List.mem_append.mp hmem
    · exact List.mem_append_left _ (h.answered answered hmem future hfuture)
    · obtain rfl := List.mem_singleton.mp hmem
      exact List.mem_append_right _ (by rwa [hfutures])
  · intro hstopped
    have hnone := (h.stopped hstopped).2
    exact absurd (hholder.symm.trans hnone) nofun

/-- A batch that is dropped is lost. -/
theorem not_accounted_of_dropped {k : Flusher} {batch : List (ℕ × T)} (h : Accounted m w)
    (hholder : w.holder = some (k, batch)) (hrecords : w'.records = w.records)
    (hqueue : w'.queue = w.queue) (hcompleted : w'.completed = w.completed)
    (hnone : w'.holder = none) : ¬ Accounted m w' := by
  intro h'
  have hlength := h.once.length_eq
  have hlength' := h'.once.length_eq
  have hpos : 0 < batch.length := List.length_pos_iff.mpr (h.busy k batch hholder)
  have hbatch : w.batch = batch := by rw [World.batch, hholder]; rfl
  have hbatch' : w'.batch = [] := by rw [World.batch, hnone]; rfl
  rw [hbatch] at hlength
  rw [hrecords, hqueue, hcompleted, hbatch'] at hlength'
  simp only [List.length_append, List.length_map, List.length_range, List.length_nil] at hlength hlength'
  omega

/-! ### One step -/

/-- A submitted record keeps the account. -/
theorem accounted_submit (h : Accounted m w) (record : T)
    (hopen : w.started = true → w.stop ≠ .stopped) : Accounted m (submit m w record) := by
  have hnew : ∀ future < w.records.length,
      (w.records ++ [record])[future]? = w.records[future]? := fun future hlt =>
    List.getElem?_append_left hlt
  have hlast : (w.records ++ [record])[w.records.length]? = some record := by simp
  have hrange : List.range (w.records ++ [record]).length =
      List.range w.records.length ++ [w.records.length] := by
    rw [List.length_append, List.length_singleton, List.range_succ]
  have hown : ∀ entry ∈ w.queue ++ w.batch,
      (w.records ++ [record])[entry.1]? = some entry.2 := by
    intro entry hentry
    have hfound := h.own entry hentry
    rw [hnew _ (List.getElem?_eq_some_iff.mp hfound).1]
    exact hfound
  have hright : ∀ entry ∈ w.completed, ∀ w' : World T E,
      w'.records = w.records ++ [record] → w'.answered = w.answered →
        Right m w' entry.1 entry.2 := by
    intro entry hentry w' hrecords hanswered
    obtain ⟨record', hrecord, hcase⟩ := h.right entry hentry
    refine ⟨record', ?_, ?_⟩
    · rw [hrecords, hnew _ (List.getElem?_eq_some_iff.mp hrecord).1]
      exact hrecord
    · rw [hanswered]
      exact hcase
  unfold submit
  dsimp only
  split
  next hstarted =>
    refine ⟨?_, ?_, fun entry hentry => hright entry hentry _ rfl rfl, h.answered, h.busy, ?_⟩
    · rw [hrange, List.map_append, ← List.append_assoc, List.append_assoc _ _ (List.map _ _)]
      refine (List.perm_append_comm.append_left _).trans ?_
      rw [← List.append_assoc]
      exact h.once.append_right _
    · intro entry hentry
      obtain hentry | hentry := List.mem_append.mp hentry
      · obtain hentry | hentry := List.mem_append.mp hentry
        · exact hown entry (List.mem_append_left _ hentry)
        · obtain rfl := List.mem_singleton.mp hentry
          exact hlast
      · exact hown entry (List.mem_append_right _ hentry)
    · exact fun hstopped => absurd hstopped (hopen hstarted)
  next =>
    have hfuture : ∀ entry ∈ w.answered, w.records.length ∉ entry.1.map Prod.fst := by
      intro entry hentry hmem
      exact absurd (h.lt_of_mem (h.answered entry hentry _ hmem)) (Nat.lt_irrefl _)
    refine ⟨?_, hown, ?_, ?_, h.busy, h.stopped⟩
    · rw [hrange, List.map_append, List.append_assoc, List.append_assoc]
      refine (List.perm_append_comm.append_left _).trans ?_
      rw [← List.append_assoc, ← List.append_assoc]
      exact h.once.append_right _
    · intro entry hentry
      obtain hentry | hentry := List.mem_append.mp hentry
      · exact hright entry hentry _ rfl rfl
      · obtain rfl := List.mem_singleton.mp hentry
        exact ⟨record, hlast, Or.inr ⟨hfuture, rfl⟩⟩
    · intro entry hentry future hmem
      rw [List.map_append]
      exact List.mem_append_left _ (h.answered entry hentry future hmem)

/-- An answer keeps it exactly if it does not raise under RAISE. -/
theorem accounted_answer_iff {k : Flusher} {batch : List (ℕ × T)} (h : Accounted m w)
    (hholder : w.holder = some (k, batch)) (a : Answer E) :
    Accounted m (answer m w k batch a) ↔
      ∀ exc, processBatch m (batch.map Prod.snd) a = .error exc → m.onError ≠ .raise := by
  have hstop : w.stop ≠ .stopped := fun hstopped =>
    absurd (hholder.symm.trans (h.stopped hstopped).2) nofun
  -- The batch that is resolved is not that of the flusher any more.
  have hflush : ∀ results : List (ℕ × Option T), results.map Prod.fst = batch.map Prod.fst →
      (∀ entry ∈ results, ∃ record, (entry.1, record) ∈ batch ∧
        Resolves m batch a entry.1 record entry.2) →
      Accounted m (flush m k { w with
        answered := w.answered ++ [(batch, a)], completed := complete w.completed results }) := by
    intro results hfutures hresolves
    exact accounted_flush (w := { w with
      answered := w.answered ++ [(batch, a)], completed := complete w.completed results
      holder := none }) (accounted_resolved h hholder hfutures hresolves) rfl
  unfold answer
  dsimp only
  cases hrun : processBatch m (batch.map Prod.snd) a with
  | ok results =>
    have hlength : results.length = batch.length := by
      rw [length_of_processBatch hrun, List.length_map]
    refine iff_of_true (hflush _ ?_ ?_) nofun
    · rw [List.map_fst_zip]
      simp [hlength]
    · intro entry hentry
      obtain ⟨i, hi⟩ := List.mem_iff_getElem?.mp hentry
      obtain ⟨hfuture, hvalue⟩ := List.getElem?_zip_eq_some.mp hi
      rw [List.getElem?_map, Option.map_eq_some_iff] at hfuture hvalue
      obtain ⟨found, hfound, hsame⟩ := hfuture
      obtain ⟨result, hresult, hsome⟩ := hvalue
      have hfound' : batch[i]? = some (entry.1, found.2) := by rw [hfound, ← hsame]
      refine ⟨found.2, List.mem_of_getElem? hfound', i, hfound', ?_⟩
      rw [hrun]
      exact ⟨result, hresult, hsome.symm⟩
  | error exc =>
    by_cases hraise : m.onError = .raise
    · refine iff_of_false ?_ fun hpolicy => hpolicy exc rfl hraise
      obtain ⟨entry, rest, rfl⟩ := List.exists_cons_of_ne_nil (h.busy k batch hholder)
      have hpending : entry.1 ∉ w.completed.map Prod.fst := by
        intro hdone
        have hnodup := h.nodup
        rw [World.batch, hholder, List.append_assoc] at hnodup
        exact (List.nodup_append.mp hnodup).2.2 entry.1 hdone entry.1
          (List.mem_append_right _ List.mem_cons_self) rfl
      dsimp only
      rw [if_pos ⟨Or.inl hraise, entry, List.mem_cons_self, hpending⟩]
      exact not_accounted_of_dropped h hholder rfl rfl rfl rfl
    · refine iff_of_true ?_ fun _ _ => hraise
      dsimp only
      rw [if_neg (fun hboth => hboth.1.elim hraise hstop)]
      apply hflush
      · rw [List.map_map]
        rfl
      · intro entry hentry
        obtain ⟨found, hfound, rfl⟩ := List.mem_map.mp hentry
        obtain ⟨i, hi⟩ := List.mem_iff_getElem?.mp hfound
        refine ⟨found.2, hfound, i, hi, ?_⟩
        rw [hrun]
        exact ⟨hraise, rfl⟩

/-- A flusher is cancelled without loss if it has no batch. -/
theorem accounted_cancelled_iff {k : Flusher} (h : Accounted m w) (hstop : w'.stop ≠ .stopped)
    (hrecords : w'.records = w.records) (hqueue : w'.queue = w.queue)
    (hholder : w'.holder = (cancelled k w).holder) (hcompleted : w'.completed = w.completed)
    (hanswered : w'.answered = w.answered) :
    Accounted m w' ↔ ∀ batch, w.holder ≠ some (k, batch) := by
  by_cases hmine : ∃ batch, w.holder = some (k, batch)
  · obtain ⟨batch, hmine⟩ := hmine
    refine iff_of_false ?_ fun hnone => hnone batch hmine
    apply not_accounted_of_dropped h hmine hrecords hqueue hcompleted
    rw [hholder, cancelled, hmine, Option.filter_some, if_neg (by simp)]
  · refine iff_of_true ?_ fun batch hsome => hmine ⟨batch, hsome⟩
    apply h.congr hrecords hqueue ?_ hcompleted hanswered fun hstopped => absurd hstopped hstop
    rw [hholder, cancelled]
    cases hw : w.holder with
    | none => rfl
    | some holder =>
      have hne : holder.1 ≠ k := by
        rintro rfl
        exact hmine ⟨holder.2, hw⟩
      rw [Option.filter_some, if_pos (by simpa using hne)]

/-- The end keeps it exactly if nobody holds a batch. -/
theorem accounted_finish_iff (h : Accounted m w) :
    Accounted m { w with
      completed := complete w.completed (w.queue.map fun entry => (entry.1, some entry.2))
      queue := []
      stop := .stopped } ↔ w.holder = none := by
  constructor
  · intro h'
    exact (h'.stopped rfl).2
  · intro hnone
    have hnodup := (List.nodup_append.mp h.nodup).1
    have hfutures : (w.queue.map fun entry => (entry.1, some entry.2)).map Prod.fst =
        w.queue.map Prod.fst := by
      rw [List.map_map]
      rfl
    rw [complete_eq (by rwa [hfutures])]
    refine ⟨?_, ?_, ?_, ?_, ?_, fun _ => ⟨rfl, hnone⟩⟩
    · have honce := h.once
      rw [List.map_append, hfutures]
      rw [World.batch, hnone] at honce ⊢
      simpa using honce
    · intro entry hentry
      exact h.own entry (List.mem_append_right _ hentry)
    · intro entry hentry
      obtain hentry | hentry := List.mem_append.mp hentry
      · exact h.right entry hentry
      · obtain ⟨found, hfound, rfl⟩ := List.mem_map.mp hentry
        refine ⟨found.2, h.own found (List.mem_append_left _ hfound), Or.inr ⟨?_, rfl⟩⟩
        intro answered hanswered hmem
        have hdone := h.answered answered hanswered _ hmem
        exact (List.nodup_append.mp hnodup).2.2 _ hdone _ (List.mem_map_of_mem hfound) rfl
    · intro answered hanswered future hmem
      rw [List.map_append]
      exact List.mem_append_left _ (h.answered answered hanswered future hmem)
    · intro k batch hsome
      exact absurd (hnone.symm.trans hsome) nofun

/-- A step keeps the account exactly under its condition. -/
theorem accounted_iff_meets {label : Label T E} (h : Accounted m w) (hstep : Step m w label w') :
    Accounted m w' ↔ Meets m w label := by
  unfold Step at hstep
  cases label with
  | submit record =>
    obtain rfl := Option.some.inj hstep
    refine ⟨fun h' hstarted hstopped => ?_, accounted_submit h record⟩
    -- The record would be in the queue after the end.
    have hsubmit : submit m w record = { w with
        records := w.records ++ [record]
        queue := w.queue ++ [(w.records.length, record)]
        waiting := (submit m w record).waiting } := by
      unfold submit
      rw [if_pos hstarted]
    rw [hsubmit] at h'
    exact absurd (h'.stopped hstopped).1 (by simp)
  | tick =>
    obtain ⟨-, hnext⟩ := Option.ite_none_right_eq_some.mp hstep
    obtain rfl := Option.some.inj hnext
    refine iff_of_true ?_ trivial
    split
    next => exact h
    next => exact h.congr rfl rfl rfl rfl rfl id
  | drain =>
    obtain rfl := Option.some.inj hstep
    refine iff_of_true ?_ trivial
    split
    next => exact h
    next => exact h.congr rfl rfl rfl rfl rfl id
  | acquire k =>
    obtain ⟨hfree, hnext⟩ := Option.ite_none_right_eq_some.mp hstep
    obtain rfl := Option.some.inj hnext
    exact iff_of_true (accounted_flush (h.congr rfl rfl rfl rfl rfl id) hfree.1) trivial
  | answer a =>
    obtain ⟨⟨k, batch⟩, hholder, rfl⟩ := Option.map_eq_some_iff.mp hstep
    rw [accounted_answer_iff h hholder]
    constructor
    · intro hpolicy k' batch' exc hholder' hrun
      obtain ⟨-, rfl⟩ := Prod.mk.inj (Option.some.inj (hholder.symm.trans hholder'))
      exact hpolicy exc hrun
    · exact fun hpolicy exc hrun => hpolicy k batch exc hholder hrun
  | onStop =>
    obtain ⟨-, hnext⟩ := Option.ite_none_right_eq_some.mp hstep
    obtain rfl := Option.some.inj hnext
    exact iff_of_true (h.congr rfl rfl rfl rfl rfl nofun) trivial
  | stopDrain =>
    obtain ⟨-, hnext⟩ := Option.ite_none_right_eq_some.mp hstep
    obtain rfl := Option.some.inj hnext
    refine iff_of_true ?_ trivial
    split
    next => exact h.congr rfl rfl rfl rfl rfl nofun
    next => exact h.congr rfl rfl rfl rfl rfl nofun
  | cancelLoop =>
    obtain ⟨-, hnext⟩ := Option.ite_none_right_eq_some.mp hstep
    obtain rfl := Option.some.inj hnext
    exact accounted_cancelled_iff h nofun rfl rfl rfl rfl rfl
  | cancelSize =>
    obtain ⟨-, hnext⟩ := Option.ite_none_right_eq_some.mp hstep
    obtain rfl := Option.some.inj hnext
    exact accounted_cancelled_iff h nofun rfl rfl rfl rfl rfl
  | finish =>
    obtain ⟨-, hnext⟩ := Option.ite_none_right_eq_some.mp hstep
    obtain rfl := Option.some.inj hnext
    exact accounted_finish_iff h

/-! ### Whole runs -/

/-- At the start there is nothing to account for. -/
theorem accounted_start (started : Bool) : Accounted m (World.start started : World T E) where
  once := .refl _
  own _ hentry := absurd hentry List.not_mem_nil
  right _ hentry := absurd hentry List.not_mem_nil
  answered _ hentry := absurd hentry List.not_mem_nil
  busy _ _ hsome := absurd hsome nofun
  stopped hstopped := absurd hstopped nofun

/-- **Every future is accounted for in the runs in which no batch fails under `RAISE`, none is cancelled,
`on_stop` does not end while there is one, and nothing is submitted after it.** -/
theorem futures_iff (m : AIBatchMiddleware T E) (started : Bool) (labels : List (Label T E))
    (w : World T E) :
    Effect.Runs (fun w label w' => Step m w label w' ∧ Accounted m w') (.start started) labels w ↔
      Effect.Runs (fun w label w' => Step m w label w' ∧ Meets m w label) (.start started) labels
        w :=
  Effect.Runs.iff_of_invariant (P := fun _ _ w' => Accounted m w') (Q := fun w label _ => Meets m w label)
    (accounted_start started) (fun _ _ _ h hstep => accounted_iff_meets h hstep)
    fun _ _ _ h hstep hmeets => (accounted_iff_meets h hstep).mpr hmeets

/-- A middleware whose enrichments are new records, one at a time. -/
def replacing (onError : OnError) : AIBatchMiddleware ℕ ℕ where
  batchSize := 1
  batchSize_pos := Nat.one_pos
  onError := onError
  merge _ enrichment := .ok enrichment

/-- An exception under `RAISE` is set on no future; and a batch that waits for the provider when
`on_stop` finds an empty queue is cancelled. -/
theorem futures_lost :
    (∃ w, Effect.Runs (Step (replacing .raise)) (.start true)
        [.submit 5, .acquire .size, .answer (.raised "timeout")] w ∧
      w.completed = [] ∧ w.queue = [] ∧ w.holder = none) ∧
    ∃ w, Effect.Runs (Step (replacing .passthrough)) (.start true)
        [.submit 5, .acquire .size, .onStop, .stopDrain, .cancelLoop, .cancelSize, .finish] w ∧
      w.stop = .stopped ∧ w.completed = [] := by
  constructor
  · exact ⟨_, Effect.Runs.of_foldlM rfl, rfl, rfl, rfl⟩
  · exact ⟨_, Effect.Runs.of_foldlM rfl, rfl, rfl⟩

end AgoraEtl.AiBatch
