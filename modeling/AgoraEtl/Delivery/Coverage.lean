import AgoraEtl.Delivery.Owner
import Mathlib.Data.List.Forall2

/-!
# What a saved checkpoint covers

A checkpoint that is saved stands for all records of the source up to its own.  This module follows
the records of a linear lane through the trace: which were taken from the source, which were passed on
to the writer side, and which have reached a handled outcome.  `Awaits` is what a queue of unsettled
records has to know about the records before them; under it the flush of a batch saves only
checkpoints that cover handled records, whatever the other task does meanwhile.
-/

namespace AgoraEtl

open Effect Program

variable {ℓ α χ β : Type}

/-! ## The records in a trace -/

/-- The records that a linear lane has taken from the source. -/
def consumedRecords (t : RunTrace α χ) : List (SourceRecord α χ) :=
  marked (fun | .consumed record => some record | _ => none) t

/-- The checkpoints of the records that a linear lane has passed on to the writer side. -/
def acceptedCheckpoints (t : RunTrace α χ) : List (Option χ) :=
  marked (fun | .accepted record => some record.checkpoint | _ => none) t

/-- The record with the checkpoint has reached a handled outcome. -/
def IsSettled (t : RunTrace α χ) (checkpoint : Option χ) : Prop :=
  ∃ how, .mark (.settled checkpoint how) ∈ t

/-- The records of a queue, given by their checkpoints, have reached a handled outcome. -/
def AllSettled (t : RunTrace α χ) (queue : List (Option χ)) : Prop := ∀ c ∈ queue, IsSettled t c

/-- The consumed records of two parts of a run follow one another. -/
@[simp] theorem consumedRecords_append (t t' : RunTrace α χ) :
    consumedRecords (t ++ t') = consumedRecords t ++ consumedRecords t' := marked_append _ t t'

/-- So do the checkpoints of accepted records. -/
@[simp] theorem acceptedCheckpoints_append (t t' : RunTrace α χ) :
    acceptedCheckpoints (t ++ t') = acceptedCheckpoints t ++ acceptedCheckpoints t' :=
  marked_append _ t t'

/-- A settled record stays settled. -/
theorem IsSettled.mono {t t' : RunTrace α χ} (ht : t <+: t') {checkpoint : Option χ}
    (h : IsSettled t checkpoint) : IsSettled t' checkpoint :=
  h.imp fun _ hmem => ht.subset hmem

/-- The mark settles its record. -/
theorem isSettled_mark (t : RunTrace α χ) (checkpoint : Option χ) (how : Handling) :
    IsSettled (t ++ [.mark (.settled checkpoint how)]) checkpoint := ⟨how, by simp⟩

/-- Settled records stay settled. -/
theorem AllSettled.mono {t t' : RunTrace α χ} (ht : t <+: t') {queue : List (Option χ)}
    (h : AllSettled t queue) : AllSettled t' queue := fun c hc => (h c hc).mono ht

/-- There is nothing to settle in an empty queue. -/
theorem allSettled_nil (t : RunTrace α χ) : AllSettled t [] := nofun

/-- A queue is settled if its first record and the others are. -/
@[simp] theorem allSettled_cons {t : RunTrace α χ} {checkpoint : Option χ} {queue : List (Option χ)} :
    AllSettled t (checkpoint :: queue) ↔ IsSettled t checkpoint ∧ AllSettled t queue :=
  List.forall_mem_cons

/-- The checkpoints of the records that have reached a handled outcome. -/
def settledCheckpoints (t : RunTrace α χ) : List (Option χ) :=
  marked (fun | .settled checkpoint _ => some checkpoint | _ => none) t

/-- The settled checkpoints are those of the settled records. -/
theorem mem_settledCheckpoints {t : RunTrace α χ} {checkpoint : Option χ} :
    checkpoint ∈ settledCheckpoints t ↔ IsSettled t checkpoint := by
  rw [settledCheckpoints, mem_marked]
  constructor
  · rintro ⟨m, hm, hcheckpoint⟩
    cases m with
    | settled c how =>
      obtain rfl : c = checkpoint := Option.some.inj hcheckpoint
      exact ⟨how, hm⟩
    | _ => cases hcheckpoint
  · rintro ⟨how, hm⟩
    exact ⟨_, hm, rfl⟩

instance [DecidableEq χ] (t : RunTrace α χ) (checkpoint : Option χ) :
    Decidable (IsSettled t checkpoint) := decidable_of_iff _ mem_settledCheckpoints

instance [DecidableEq χ] (t : RunTrace α χ) (queue : List (Option χ)) :
    Decidable (AllSettled t queue) := inferInstanceAs (Decidable (∀ c ∈ queue, IsSettled t c))

/-- What was consumed before is the beginning of what is consumed later. -/
theorem prefix_consumedRecords {t t' : RunTrace α χ} (ht : t <+: t') :
    consumedRecords t <+: consumedRecords t' := by
  obtain ⟨s, rfl⟩ := ht
  rw [consumedRecords_append]
  exact List.prefix_append _ _

/-- The mark of a record that the lane takes in. -/
def Mark.TakesIn : Mark α χ → Prop
  | .consumed _ => True
  | .accepted _ => True
  | _ => False

/-- The trace has gone on without another record being taken in. -/
structure Advances (t t' : RunTrace α χ) : Prop where
  grows : t <+: t'
  consumed : consumedRecords t' = consumedRecords t
  accepted : acceptedCheckpoints t' = acceptedCheckpoints t

namespace Advances

/-- Nothing is taken in by doing nothing. -/
theorem refl (t : RunTrace α χ) : Advances t t := ⟨List.prefix_rfl, rfl, rfl⟩

/-- Parts of a run that take nothing in compose. -/
theorem trans {t₁ t₂ t₃ : RunTrace α χ} (h : Advances t₁ t₂) (h' : Advances t₂ t₃) :
    Advances t₁ t₃ :=
  ⟨h.grows.trans h'.grows, h'.consumed.trans h.consumed, h'.accepted.trans h.accepted⟩

/-- A call takes nothing in. -/
theorem called (t : RunTrace α χ) (o : Call α χ) (r : o.Ret) : Advances t (t ++ [.called o r]) :=
  ⟨List.prefix_append _ _, by simp [consumedRecords], by simp [acceptedCheckpoints]⟩

/-- A mark that is none of those takes nothing in. -/
theorem mark (t : RunTrace α χ) {m : Mark α χ} (hm : ¬ m.TakesIn) : Advances t (t ++ [.mark m]) := by
  refine ⟨List.prefix_append _ _, ?_, ?_⟩
  · cases m <;> first | exact absurd trivial hm | simp [consumedRecords]
  · cases m <;> first | exact absurd trivial hm | simp [acceptedCheckpoints]

end Advances

/-- The marks of the engine take nothing in. -/
theorem allowsEngine_not_takesIn : AllowsEngine fun m : Mark α χ => ¬ m.TakesIn :=
  ⟨fun _ _ => id, fun _ _ => id, fun _ => id⟩

namespace DeliveryEngine

variable (d : DeliveryEngine α χ)

/-- As far as checkpoints are saved at all, the record with the checkpoint is handled. -/
def Accounts (t : RunTrace α χ) (checkpoint : Option χ) : Prop :=
  d.checkpointStore = true → checkpoint.isSome = true → IsSettled t checkpoint

/-- The checkpoint belongs to a record of the source, and this record and all before it are
accounted for. -/
def Covered (t : RunTrace α χ) (value : χ) : Prop :=
  ∃ before r after, consumedRecords t = before ++ r :: after ∧ r.checkpoint = some value ∧
    ∀ r' ∈ before ++ [r], d.Accounts t r'.checkpoint

/-- The records of a queue, given by their checkpoints: the records before each of them are accounted
for or wait in the queue before it. -/
def Awaits (t : RunTrace α χ) (queue : List (Option χ)) : Prop :=
  ∀ front checkpoint rest, queue = front ++ checkpoint :: rest →
    ∃ before r after, consumedRecords t = before ++ r :: after ∧ r.checkpoint = checkpoint ∧
      ∀ r' ∈ before, d.Accounts t r'.checkpoint ∨ r'.checkpoint ∈ front

/-- The record is the last one taken from the source, and the records before it were accepted or are
accounted for. -/
def ConsumedLast (t : RunTrace α χ) (r : SourceRecord α χ) : Prop :=
  ∃ before, consumedRecords t = before ++ [r] ∧
    ∀ r' ∈ before, d.Accounts t r'.checkpoint ∨ r'.checkpoint ∈ acceptedCheckpoints t

/-- A checkpoint is only saved if there is a store and it covers handled records. -/
def SavesCovered (t : RunTrace α χ) (e : Event (Call α χ) Call.Ret (Mark α χ)) : Prop :=
  ∀ key checkpoint answer, e = .called (.await (.saveCheckpoint key checkpoint)) answer →
    d.checkpointStore = true ∧ d.Covered t checkpoint.value

variable {d} {t t' : RunTrace α χ}

/-- A checkpoint that is accounted for stays so. -/
theorem Accounts.mono (ht : t <+: t') {checkpoint : Option χ} (h : d.Accounts t checkpoint) :
    d.Accounts t' checkpoint := fun hstore hsome => (h hstore hsome).mono ht

/-- A settled record is accounted for. -/
theorem accounts_of_settled {checkpoint : Option χ} (h : IsSettled t checkpoint) :
    d.Accounts t checkpoint := fun _ _ => h

/-- So are those of a settled queue. -/
theorem accounts_of_allSettled {queue : List (Option χ)} (h : AllSettled t queue) :
    ∀ c ∈ queue, d.Accounts t c := fun c hc => accounts_of_settled (h c hc)

/-- A covered value stays covered. -/
theorem Covered.mono (ht : t <+: t') {value : χ} (h : d.Covered t value) : d.Covered t' value := by
  obtain ⟨before, r, after, hconsumed, hr, hall⟩ := h
  obtain ⟨more, hmore⟩ := prefix_consumedRecords ht
  refine ⟨before, r, after ++ more, ?_, hr, fun r' hr' => (hall r' hr').mono ht⟩
  rw [← hmore, hconsumed, List.append_assoc, List.cons_append]

/-- A queue that is awaited stays so. -/
theorem Awaits.mono (ht : t <+: t') {queue : List (Option χ)} (h : d.Awaits t queue) :
    d.Awaits t' queue := by
  intro front checkpoint rest hqueue
  obtain ⟨before, r, after, hconsumed, hr, hall⟩ := h front checkpoint rest hqueue
  obtain ⟨more, hmore⟩ := prefix_consumedRecords ht
  refine ⟨before, r, after ++ more, ?_, hr, fun r' hr' => (hall r' hr').imp_left (·.mono ht)⟩
  rw [← hmore, hconsumed, List.append_assoc, List.cons_append]

/-- The record that was consumed last still is, as long as nothing is taken in. -/
theorem ConsumedLast.advance {r : SourceRecord α χ} (h : d.ConsumedLast t r)
    (hadvances : Advances t t') : d.ConsumedLast t' r := by
  obtain ⟨before, hconsumed, hbefore⟩ := h
  refine ⟨before, hadvances.consumed.trans hconsumed, fun r' hr' => ?_⟩
  rw [hadvances.accepted]
  exact (hbefore r' hr').imp_left (·.mono hadvances.grows)

/-- With nothing queued there is nothing to await. -/
theorem awaits_nil (t : RunTrace α χ) : d.Awaits t [] := by
  intro front checkpoint rest hqueue
  simp at hqueue

/-- The front of a queue is a queue. -/
theorem Awaits.front {queue rest : List (Option χ)} (h : d.Awaits t (queue ++ rest)) :
    d.Awaits t queue := by
  rintro front checkpoint rest' rfl
  exact h front checkpoint (rest' ++ rest) (by rw [List.append_assoc, List.cons_append])

/-- What is left of a queue when its front is accounted for. -/
theorem Awaits.rest {queue rest : List (Option χ)} (h : d.Awaits t (queue ++ rest))
    (hqueue : ∀ c ∈ queue, d.Accounts t c) : d.Awaits t rest := by
  rintro front checkpoint rest' rfl
  obtain ⟨before, r, after, hconsumed, hr, hall⟩ :=
    h (queue ++ front) checkpoint rest' (List.append_assoc ..).symm
  refine ⟨before, r, after, hconsumed, hr, fun r' hr' => ?_⟩
  rcases hall r' hr' with hdone | hmem
  · exact .inl hdone
  · exact (List.mem_append.mp hmem).imp_left (hqueue _)

/-- The last record taken from the source joins a queue that knows all records before it. -/
theorem Awaits.concat {queue : List (Option χ)} (h : d.Awaits t queue)
    {before : List (SourceRecord α χ)} {r : SourceRecord α χ}
    (hconsumed : consumedRecords t = before ++ [r])
    (hbefore : ∀ r' ∈ before, d.Accounts t r'.checkpoint ∨ r'.checkpoint ∈ queue) :
    d.Awaits t (queue ++ [r.checkpoint]) := by
  intro front checkpoint rest hqueue
  rcases List.eq_nil_or_concat rest with rfl | ⟨rest, last, rfl⟩
  · obtain ⟨rfl, hlast⟩ := List.append_inj' hqueue rfl
    exact ⟨before, r, [], hconsumed, (List.cons.inj hlast).1, hbefore⟩
  · rw [List.concat_eq_append, ← List.cons_append, ← List.append_assoc] at hqueue
    exact h front checkpoint rest (List.append_inj' hqueue rfl).1

/-- A record of a queue is covered once it and the queue before it are accounted for. -/
theorem Awaits.covers {front rest : List (Option χ)} {value : χ}
    (h : d.Awaits t (front ++ some value :: rest)) (hfront : ∀ c ∈ front, d.Accounts t c)
    (hvalue : d.Accounts t (some value)) : d.Covered t value := by
  obtain ⟨before, r, after, hconsumed, hr, hall⟩ := h front (some value) rest rfl
  refine ⟨before, r, after, hconsumed, hr, fun r' hr' => ?_⟩
  rcases List.mem_append.mp hr' with hr' | hr'
  · exact (hall r' hr').elim id (hfront _)
  · rw [List.mem_singleton.mp hr', hr]
    exact hvalue

/-- The records of a queue that is accounted for are covered. -/
theorem Awaits.covers_of_mem {queue : List (Option χ)} (h : d.Awaits t queue)
    (hqueue : ∀ c ∈ queue, d.Accounts t c) {value : χ} (hmem : some value ∈ queue) :
    d.Covered t value := by
  obtain ⟨front, rest, rfl⟩ := List.append_of_mem hmem
  exact h.covers (fun c hc => hqueue c (List.mem_append_left _ hc)) (hqueue _ hmem)

/-! ## Programs that are watched -/

variable (d)

/-- The contract of a program that is watched for what its saves cover; the others may act as `rely`
says. -/
def watching (assume : RunTrace α χ → Event (Call α χ) Call.Ret (Mark α χ) → Prop)
    (rely : RunWorld ℓ α χ → RunWorld ℓ α χ → Prop) :
    Contract (Call α χ) Call.Ret (Mark α χ) (RunState ℓ α χ) where
  ready := fun _ _ _ => True
  assume := assume
  ensure := d.SavesCovered
  rely := rely
  guarantee := fun _ _ => True
  mayHang := True

section Watching

variable {d} {assume : RunTrace α χ → Event (Call α χ) Call.Ret (Mark α χ) → Prop}
  {rely : RunWorld ℓ α χ → RunWorld ℓ α χ → Prop} {w₀ w : RunWorld ℓ α χ} {M : Mark α χ → Prop}

/-- A mark saves nothing. -/
theorem savesCovered_mark (t : RunTrace α χ) (m : Mark α χ) : d.SavesCovered t (.mark m) := nofun

/-- A call that is no save saves nothing. -/
theorem savesCovered_called (t : RunTrace α χ) {o : Call α χ} (ho : o.isSave = false) (r : o.Ret) :
    d.SavesCovered t (.called o r) := by
  intro key checkpoint answer he
  cases he
  cases ho

/-- The frame rule for watched programs that save nothing. -/
theorem safe_watching_of_resolve {T : RunTrace α χ → Prop}
    (hmark : ∀ t m, M m → T t → T (t ++ [.mark m]))
    (hcall : ∀ t (o : Call α χ) r, T t → T (t ++ [.called o r]))
    (hrely : ∀ w w', rely w w' → T w.trace → T w'.trace) {p : Delivery ℓ α χ β}
    (hp : p.Within (resolveFrame ℓ M)) (hw : T w.trace) :
    p.Safe (d.watching assume rely) (fun _ _ w' => T w'.trace) (fun _ _ w' => T w'.trace) w₀ w := by
  refine Safe.of_within (J := fun _ w' => T w'.trace) (fun _ _ _ hw' _ => hw')
    (fun _ w' m hm hw' _ => ⟨savesCovered_mark _ _, hmark _ m hm hw'⟩) (fun _ w' o ho hw' => ?_)
    (fun _ => trivial) hp hw
  exact ⟨trivial, fun w₁ hr r _ _ => ⟨savesCovered_called _ ho r, hcall _ o r (hrely _ _ hr hw')⟩⟩

variable (hrely : ∀ w w', rely w w' → w.trace <+: w'.trace)

include hrely in
/-- A watched program that saves nothing takes nothing back. -/
theorem safe_watching_grows {p : Delivery ℓ α χ β} (hp : p.Within (resolveFrame ℓ M)) :
    p.Safe (d.watching assume rely) (fun _ _ w' => w.trace <+: w'.trace)
      (fun _ _ w' => w.trace <+: w'.trace) w₀ w :=
  safe_watching_of_resolve (fun _ _ _ ht => ht.trans (List.prefix_append _ _))
    (fun _ _ _ ht => ht.trans (List.prefix_append _ _)) (fun _ _ hr ht => ht.trans (hrely _ _ hr)) hp
    List.prefix_rfl

/-- An operation is safe under watch if its save is covered and its answer is dealt with. -/
theorem safe_invoke_watching {a : Await α χ} {Q : a.Value → RunWorld ℓ α χ → RunWorld ℓ α χ → Prop}
    {E : Exc → RunWorld ℓ α χ → RunWorld ℓ α χ → Prop} :
    (invoke a : Delivery ℓ α χ a.Value).Safe (d.watching assume rely) Q E w₀ w ↔
      ∀ w₁, rely w w₁ → ∀ r : Except Exc a.Value, assume w₁.trace (.called (.await a) r) →
        d.SavesCovered w₁.trace (.called (.await a) r) ∧
          match r with
          | .ok v => Q v w₁ (w₁.called (.await a) r)
          | .error exc => E exc w₁ (w₁.called (.await a) r) := by
  unfold invoke
  rw [safe_bind, safe_perform]
  constructor
  · intro h w₁ hr r ha
    have hcall := h.2 w₁ hr r trivial ha
    cases r <;> exact hcall
  · refine fun h => ⟨trivial, fun w₁ hr r _ ha => ?_⟩
    have hcall := h w₁ hr r ha
    cases r <;> exact hcall

include hrely in
/-- A checkpoint may be persisted if it covers handled records. -/
theorem safe_persistCheckpoint_watching {value : χ} (hvalue : d.Covered w.trace value)
    (batchSize : ℕ) :
    (d.persistCheckpoint (d.checkpointOf value) batchSize : Delivery ℓ α χ Unit).Safe
      (d.watching assume rely) (fun _ _ w' => w.trace <+: w'.trace) (fun _ _ _ => True) w₀ w := by
  unfold persistCheckpoint
  rw [safe_bind]
  refine Safe.mono (Q := fun _ _ w' => w.trace <+: w'.trace) (fun saved _ w' hw' => ?_)
    (fun _ _ _ he => he) ?_
  · rw [safe_bind, safe_modify]
    cases saved with
    | true => exact hw'
    | false => exact hw'
  · rw [safe_catchException, safe_bind]
    have hfailed : ∀ (exc : Exc) {w₀ w' : RunWorld ℓ α χ}, w.trace <+: w'.trace →
        if exc.isException then
          (do
            modify fun s : RunState ℓ α χ => { s with
              metrics := { s.metrics with
                checkpointFailureCount := s.metrics.checkpointFailureCount + 1 } }
            if d.checkpointFailurePolicy = .logAndContinue then pure false
            else raise (.checkpointSave exc) : Delivery ℓ α χ Bool).Safe (d.watching assume rely)
            (fun _ _ w' => w.trace <+: w'.trace) (fun _ _ _ => True) w₀ w'
        else True := by
      intro exc w₀ w' hw'
      split
      · rw [safe_bind, safe_modify]
        split
        · exact hw'
        · trivial
      · trivial
    have hfence : (d.assertRunFenceActive : Delivery ℓ α χ Unit).Within
        (resolveFrame ℓ fun _ => False) := d.within_assertRunFenceActive
    refine (safe_watching_grows hrely hfence).mono (fun _ _ w₁ hw₁ => ?_)
      fun exc _ _ hw₁ => hfailed exc hw₁
    cases hstore : d.checkpointStore with
    | false =>
      exact hfailed (.runtimeError "checkpoint_store is None — cannot persist checkpoint") hw₁
    | true =>
      simp only [Bool.true_eq_false, if_false]
      rw [safe_bind]
      refine safe_invoke_watching.mpr fun w₂ hr r _ => ?_
      have hgrows : w.trace <+: w₂.trace := hw₁.trans (hrely _ _ hr)
      have hcalled : w.trace <+: (w₂.called (.await (.saveCheckpoint d.checkpointKey
          (d.checkpointOf value))) r).trace := hgrows.trans (List.prefix_append _ _)
      refine ⟨fun key checkpoint answer he => ?_, ?_⟩
      · cases he
        exact ⟨hstore, hvalue.mono hgrows⟩
      · cases r with
        | ok u => exact hcalled
        | error exc => exact hfailed exc hcalled

/-- What is pending may be saved: it covers handled records. -/
def PendingCovered (d : DeliveryEngine α χ) (t : RunTrace α χ) (pending : Option (Checkpoint χ × ℕ)) :
    Prop :=
  ∀ p, pending = some p → ∃ value, p.1 = d.checkpointOf value ∧ d.Covered t value

/-- A pending save that is covered stays so. -/
theorem PendingCovered.mono (ht : t <+: t') {pending : Option (Checkpoint χ × ℕ)}
    (h : d.PendingCovered t pending) : d.PendingCovered t' pending := by
  intro p hp
  obtain ⟨value, hvalue, hcovers⟩ := h p hp
  exact ⟨value, hvalue, hcovers.mono ht⟩

/-- Where no save is pending there is nothing to cover. -/
theorem pendingCovered_none (t : RunTrace α χ) : d.PendingCovered t none := nofun

include hrely in
/-- The save that is due is covered if it was before. -/
theorem safe_persistPending_watching {pending : Option (Checkpoint χ × ℕ)}
    (hpending : d.PendingCovered w.trace pending) :
    (d.persistPending pending : Delivery ℓ α χ Unit).Safe (d.watching assume rely)
      (fun _ _ w' => w.trace <+: w'.trace) (fun _ _ _ => True) w₀ w := by
  cases pending with
  | none => exact List.prefix_rfl
  | some p =>
    obtain ⟨value, hvalue, hcovers⟩ := hpending p rfl
    obtain ⟨checkpoint, batchSize⟩ := p
    obtain rfl : checkpoint = d.checkpointOf value := hvalue
    exact safe_persistCheckpoint_watching hrely hcovers batchSize

include hrely in
/-- So is the save at the end of a commit. -/
theorem safe_finishCommit_watching [DecidableEq χ] {pending : PendingCommit χ}
    (hpending : d.PendingCovered w.trace pending.checkpoint) :
    (d.finishCommit pending : Delivery ℓ α χ Unit).Safe (d.watching assume rely)
      (fun _ _ w' => w.trace <+: w'.trace) (fun _ _ _ => True) w₀ w := by
  unfold finishCommit
  rw [safe_bind]
  refine (safe_persistPending_watching hrely hpending).mono (fun _ _ w₁ hw₁ => ?_) fun _ _ _ he => he
  exact (safe_watching_grows hrely (within_runHooks (M := fun _ => False) _)).mono
    (fun _ _ _ hw₂ => hw₁.trans hw₂) fun _ _ _ _ => trivial

/-- Counting a handled record: what is pending afterwards is what was pending before or the checkpoint
of the record. -/
theorem safe_preparePending [DecidableEq χ]
    {C : Contract (Call α χ) Call.Ret (Mark α χ) (RunState ℓ α χ)}
    {Q : PendingCommit χ → RunWorld ℓ α χ → RunWorld ℓ α χ → Prop}
    {E : Exc → RunWorld ℓ α χ → RunWorld ℓ α χ → Prop} {pending : PendingCommit χ}
    {checkpoint : Option χ} {hooks : List Hook}
    (h : ∀ pending' w', w'.trace = w.trace → (pending'.checkpoint = pending.checkpoint ∨
      ∃ value n, checkpoint = some value ∧
        pending'.checkpoint = some (d.checkpointOf value, n)) → Q pending' w₀ w') :
    (d.preparePending pending checkpoint hooks).Safe C Q E w₀ w := by
  unfold preparePending prepareCheckpoint
  rw [safe_bind]
  split
  · rename_i value _
    unfold countProcessed
    rw [safe_bind, safe_modify, safe_bind, safe_read]
    split
    · exact h _ _ rfl (.inr ⟨value, _, rfl, rfl⟩)
    · exact h _ _ rfl (.inl rfl)
  · exact h _ _ rfl (.inl rfl)

/-! ### The flush of a batch -/

/-- What is pending is still covered when a covered record was counted. -/
theorem PendingCovered.of_prepared {pending pending' : Option (Checkpoint χ × ℕ)}
    {checkpoint : Option χ} (h : d.PendingCovered t pending)
    (hcheckpoint : ∀ value, checkpoint = some value → d.Covered t value)
    (hprepared : pending' = pending ∨
      ∃ value n, checkpoint = some value ∧ pending' = some (d.checkpointOf value, n)) :
    d.PendingCovered t pending' := by
  rcases hprepared with rfl | ⟨value, n, hvalue, rfl⟩
  · exact h
  · intro p hp
    cases hp
    exact ⟨value, rfl, hcheckpoint value hvalue⟩

section Commit

variable [DecidableEq χ]

omit [DecidableEq χ] in
/-- The marks of a written batch settle its records. -/
theorem safe_noteWritten_watching (batch : List (PendingWrite α χ)) :
    (noteWritten batch : Delivery ℓ α χ Unit).Safe (d.watching assume rely)
      (fun _ _ w' => w.trace <+: w'.trace ∧ AllSettled w'.trace (batch.map PendingWrite.checkpoint))
      (fun _ _ _ => True) w₀ w := by
  induction batch generalizing w with
  | nil => exact ⟨List.prefix_rfl, allSettled_nil _⟩
  | cons item batch ih =>
    unfold noteWritten
    rw [safe_bind, safe_note]
    refine fun _ => ⟨savesCovered_mark _ _, ih.mono (fun _ _ w' hw' => ?_) fun _ _ _ he => he⟩
    obtain ⟨hgrows, hsettled⟩ := hw'
    have hitem := (isSettled_mark w.trace item.checkpoint .written).mono hgrows
    exact ⟨(List.prefix_append _ _).trans hgrows, allSettled_cons.mpr ⟨hitem, hsettled⟩⟩

include hrely in
/-- A batch that was written is committed. -/
theorem safe_commitSuccessFrom_watching (batch : List (PendingWrite α χ))
    (hbatch : ∀ item ∈ batch, ∀ value, item.checkpoint = some value → d.Covered w.trace value)
    {pending : PendingCommit χ} (hpending : d.PendingCovered w.trace pending.checkpoint) :
    (d.commitSuccessFrom pending batch : Delivery ℓ α χ Unit).Safe (d.watching assume rely)
      (fun _ _ w' => w.trace <+: w'.trace) (fun _ _ _ => True) w₀ w := by
  induction batch generalizing pending w with
  | nil => exact safe_finishCommit_watching hrely hpending
  | cons item batch ih =>
    unfold commitSuccessFrom
    rw [safe_bind]
    refine safe_preparePending fun pending' w' htrace hprepared => ?_
    rw [← htrace] at hbatch hpending ⊢
    exact ih (fun item' hitem' => hbatch item' (List.mem_cons_of_mem _ hitem'))
      (hpending.of_prepared (hbatch item List.mem_cons_self) hprepared)

include hrely in
/-- A batch whose write failed as a whole: every record before the one at hand is settled. -/
theorem safe_flushBatchOutcomesFrom_watching (exc : Exc) (batch : List (PendingWrite α χ))
    {front : List (Option χ)}
    (hawaits : d.Awaits w.trace (front ++ batch.map PendingWrite.checkpoint))
    (hfront : ∀ c ∈ front, d.Accounts w.trace c) {pending : PendingCommit χ}
    (hpending : d.PendingCovered w.trace pending.checkpoint) :
    (d.flushBatchOutcomesFrom exc pending batch : Delivery ℓ α χ Unit).Safe
      (d.watching assume rely)
      (fun _ _ w' => w.trace <+: w'.trace ∧ AllSettled w'.trace (batch.map PendingWrite.checkpoint))
      (fun _ _ _ => True) w₀ w := by
  induction batch generalizing front pending w₀ w with
  | nil =>
    exact (safe_finishCommit_watching hrely hpending).mono (fun _ _ _ h => ⟨h, allSettled_nil _⟩)
      fun _ _ _ he => he
  | cons item batch ih =>
    unfold flushBatchOutcomesFrom
    rw [safe_bind]
    have hdlq : (d.writeToDlq "sink_write" exc item.raw (some item.processed) item.checkpoint none :
        Delivery ℓ α χ Bool).Within (resolveFrame ℓ Mark.IsDelivery) :=
      d.within_writeToDlq (allowsUncaptured_isDelivery _) _ _ _ _ _
    refine (safe_watching_grows hrely hdlq).mono (fun routed _ w₁ hw₁ => ?_) fun _ _ _ _ => trivial
    rw [safe_bind]
    refine safe_count fun w₂ _ htrace₂ => ?_
    rw [← htrace₂] at hw₁
    split
    · -- the record is handled, and its checkpoint may be pending from now on
      rw [safe_bind, safe_note]
      refine fun _ => ⟨savesCovered_mark _ _, ?_⟩
      rw [safe_bind]
      refine safe_preparePending fun pending' w₃ htrace₃ hprepared => ?_
      have hgrows : w.trace <+: w₃.trace := by
        rw [htrace₃]
        exact hw₁.trans (List.prefix_append _ _)
      have hsettled : IsSettled w₃.trace item.checkpoint := by
        rw [htrace₃]
        exact isSettled_mark _ _ _
      have hawaits₃ := hawaits.mono hgrows
      have hfront₃ : ∀ c ∈ front ++ [item.checkpoint], d.Accounts w₃.trace c := by
        intro c hc
        rcases List.mem_append.mp hc with hc | hc
        · exact (hfront c hc).mono hgrows
        · rw [List.mem_singleton.mp hc]
          exact accounts_of_settled hsettled
      have hcovers : ∀ value, item.checkpoint = some value → d.Covered w₃.trace value := by
        intro value hvalue
        rw [List.map_cons, hvalue] at hawaits₃
        exact hawaits₃.covers (fun c hc => hfront₃ c (List.mem_append_left _ hc))
          (accounts_of_settled (hvalue ▸ hsettled))
      rw [List.map_cons, ← List.singleton_append, ← List.append_assoc] at hawaits₃
      refine (ih hawaits₃ hfront₃ ((hpending.mono hgrows).of_prepared hcovers hprepared)).mono
        (fun _ _ w₄ hw₄ => ?_) fun _ _ _ he => he
      exact ⟨hgrows.trans hw₄.1, allSettled_cons.mpr ⟨hsettled.mono hw₄.1, hw₄.2⟩⟩
    · -- the record is not handled, and the flush raises
      rw [safe_bind]
      exact (safe_finishCommit_watching hrely (hpending.mono hw₁)).mono (fun _ _ _ _ => trivial)
        fun _ _ _ he => he

/-- What became of the record with the checkpoint: it is settled, or its failure was not captured and
stops the run. -/
def Resolution (d : DeliveryEngine α χ) (t : RunTrace α χ) (checkpoint : Option χ) :
    CommitOutcome χ → Prop
  | .erroredUnrouted _ => d.sinkFailurePolicy = .failClosed
  | .written c _ => c = checkpoint ∧ IsSettled t checkpoint
  | .dropped c _ => c = checkpoint ∧ IsSettled t checkpoint
  | .erroredRouted c _ => c = checkpoint ∧ IsSettled t checkpoint

omit [DecidableEq χ] in
/-- What an outcome says of its record holds later on. -/
theorem Resolution.mono (ht : t <+: t') {checkpoint : Option χ} {o : CommitOutcome χ}
    (h : d.Resolution t checkpoint o) : d.Resolution t' checkpoint o := by
  cases o with
  | erroredUnrouted exc => exact h
  | written c hooks => exact ⟨h.1, h.2.mono ht⟩
  | dropped c hooks => exact ⟨h.1, h.2.mono ht⟩
  | erroredRouted c hooks => exact ⟨h.1, h.2.mono ht⟩

include hrely in
omit [DecidableEq χ] in
/-- Resolving a write result settles the record, or its failure is not captured. -/
theorem safe_resolveWriteResult_watching (writeResult : WriteResult) (rawRecord processedRecord : α)
    (checkpoint : Option χ) (onSuccess : List Hook) :
    (d.resolveWriteResult writeResult rawRecord processedRecord checkpoint onSuccess :
      Delivery ℓ α χ (CommitOutcome χ)).Safe (d.watching assume rely)
      (fun o _ w' => w.trace <+: w'.trace ∧ d.Resolution w'.trace checkpoint o)
      (fun _ _ _ => True) w₀ w := by
  have hsettled : ∀ (how : Handling) {w' : RunWorld ℓ α χ}, w.trace <+: w'.trace →
      w.trace <+: (w'.mark (.settled checkpoint how)).trace ∧
        checkpoint = checkpoint ∧ IsSettled (w'.mark (.settled checkpoint how)).trace checkpoint :=
    fun how w' hw' => ⟨hw'.trans (List.prefix_append _ _), rfl, isSettled_mark _ _ _⟩
  unfold resolveWriteResult
  cases writeResult.errors with
  | nil =>
    dsimp only
    split
    · rw [safe_bind]
      refine safe_count fun w₁ _ htrace => ?_
      rw [safe_bind, safe_note]
      exact fun _ => ⟨savesCovered_mark _ _, hsettled .dropped (htrace ▸ List.prefix_rfl)⟩
    · rw [safe_bind]
      refine safe_count fun w₁ _ htrace => ?_
      rw [safe_bind, safe_note]
      exact fun _ => ⟨savesCovered_mark _ _, hsettled .written (htrace ▸ List.prefix_rfl)⟩
  | cons first rest =>
    dsimp only
    rw [safe_bind]
    have hroute : (d.routeErrors rawRecord processedRecord checkpoint (first :: rest) :
        Delivery ℓ α χ Bool).Within (resolveFrame ℓ Mark.IsDelivery) :=
      d.within_routeErrors allowsWrites_isDelivery _ _ _ _
    refine (safe_watching_grows hrely hroute).mono (fun routed _ w₁ hw₁ => ?_) fun _ _ _ _ => trivial
    rw [safe_bind]
    refine safe_count fun w₂ _ htrace₂ => ?_
    rw [← htrace₂] at hw₁
    have hresolve : ∀ {w₀ w' : RunWorld ℓ α χ}, w.trace <+: w'.trace → (
        if routed || d.sinkFailurePolicy = .logAndContinue then do
          note (.settled checkpoint (failureHandling routed))
          pure (.erroredRouted checkpoint
            (if writeResult.written || routed then onSuccess else []))
        else pure (.erroredUnrouted first) : Delivery ℓ α χ (CommitOutcome χ)).Safe
        (d.watching assume rely)
        (fun o _ w' => w.trace <+: w'.trace ∧ d.Resolution w'.trace checkpoint o)
        (fun _ _ _ => True) w₀ w' := by
      intro w₀ w' hw'
      split
      · rw [safe_bind, safe_note]
        exact fun _ => ⟨savesCovered_mark _ _, hsettled _ hw'⟩
      · rename_i hnot
        refine ⟨hw', ?_⟩
        cases hpolicy : d.sinkFailurePolicy with
        | failClosed => exact hpolicy
        | logAndContinue =>
          rw [hpolicy] at hnot
          exact absurd (by simp) hnot
    split
    · rw [safe_bind]
      exact safe_count fun w₃ _ htrace₃ => hresolve (htrace₃ ▸ hw₁)
    · exact hresolve hw₁

include hrely in
omit [DecidableEq χ] in
/-- The results of a batch write are resolved one by one. -/
theorem safe_resolveRecords_watching [DecidableEq α]
    (items : List (PendingWrite α χ × WriteResult)) :
    (d.resolveRecords items : Delivery ℓ α χ (List (CommitOutcome χ))).Safe (d.watching assume rely)
      (fun outcomes _ w' => w.trace <+: w'.trace ∧
        List.Forall₂ (fun item o => d.Resolution w'.trace item.1.checkpoint o) items outcomes)
      (fun _ _ _ => True) w₀ w := by
  induction items generalizing w₀ w with
  | nil => exact ⟨List.prefix_rfl, .nil⟩
  | cons item items ih =>
    obtain ⟨item, writeResult⟩ := item
    unfold resolveRecords resolveRecord
    rw [safe_bind, safe_bind]
    have hhooks : (successHookFor item.raw (some item.processed) item.onSuccess :
        Delivery ℓ α χ (List Hook)).Within (resolveFrame ℓ fun _ => False) :=
      within_successHookFor _ _ _
    refine (safe_watching_grows hrely hhooks).mono (fun hooks _ w₁ hw₁ => ?_) fun _ _ _ _ => trivial
    refine (safe_resolveWriteResult_watching hrely writeResult item.raw item.processed item.checkpoint
      hooks).mono (fun o _ w₂ hw₂ => ?_) fun _ _ _ he => he
    rw [safe_bind]
    refine ih.mono (fun outcomes _ w₃ hw₃ => ?_) fun _ _ _ he => he
    exact ⟨(hw₁.trans hw₂.1).trans hw₃.1, .cons (hw₂.2.mono hw₃.1) hw₃.2⟩

include hrely in
/-- The outcomes of a batch are committed up to the first that stops the run. -/
theorem safe_commitOutcomesFrom_watching {checkpoints : List (Option χ)}
    {outcomes : List (CommitOutcome χ)} {front : List (Option χ)}
    (hawaits : d.Awaits w.trace (front ++ checkpoints)) (hfront : ∀ c ∈ front, d.Accounts w.trace c)
    (houtcomes : List.Forall₂ (d.Resolution w.trace) checkpoints outcomes)
    {pending : PendingCommit χ} (hpending : d.PendingCovered w.trace pending.checkpoint) :
    (d.commitOutcomesFrom pending outcomes : Delivery ℓ α χ Unit).Safe (d.watching assume rely)
      (fun _ _ w' => w.trace <+: w'.trace ∧ AllSettled w'.trace checkpoints)
      (fun _ _ _ => True) w₀ w := by
  induction outcomes generalizing checkpoints front pending w₀ w with
  | nil =>
    cases houtcomes
    exact (safe_finishCommit_watching hrely hpending).mono (fun _ _ _ h => ⟨h, allSettled_nil _⟩)
      fun _ _ _ he => he
  | cons o outcomes ih =>
    cases houtcomes with
    | @cons checkpoint _ checkpoints _ hresolution houtcomes =>
    -- a record that is settled is counted, and its checkpoint may be pending from now on
    have hsettled : ∀ (hooks : List Hook), IsSettled w.trace checkpoint →
        (do
          let pending ← d.preparePending pending checkpoint hooks
          d.commitOutcomesFrom pending outcomes : Delivery ℓ α χ Unit).Safe (d.watching assume rely)
          (fun _ _ w' => w.trace <+: w'.trace ∧ AllSettled w'.trace (checkpoint :: checkpoints))
          (fun _ _ _ => True) w₀ w := by
      intro hooks hsettled
      rw [safe_bind]
      refine safe_preparePending fun pending' w' htrace hprepared => ?_
      rw [← htrace] at hawaits hfront houtcomes hpending hsettled ⊢
      have hcovers : ∀ value, checkpoint = some value → d.Covered w'.trace value := by
        rintro value rfl
        exact hawaits.covers hfront (accounts_of_settled hsettled)
      have hfront' : ∀ c ∈ front ++ [checkpoint], d.Accounts w'.trace c := by
        intro c hc
        rcases List.mem_append.mp hc with hc | hc
        · exact hfront c hc
        · rw [List.mem_singleton.mp hc]
          exact accounts_of_settled hsettled
      rw [← List.singleton_append, ← List.append_assoc] at hawaits
      refine (ih hawaits hfront' houtcomes (hpending.of_prepared hcovers hprepared)).mono
        (fun _ _ w'' hw'' => ?_) fun _ _ _ he => he
      exact ⟨hw''.1, allSettled_cons.mpr ⟨hsettled.mono hw''.1, hw''.2⟩⟩
    cases o with
    | erroredUnrouted exc =>
      unfold commitOutcomesFrom
      rw [safe_bind, if_pos (c := d.sinkFailurePolicy = .failClosed) hresolution]
      exact (safe_finishCommit_watching hrely hpending).mono (fun _ _ _ _ => trivial)
        fun _ _ _ he => he
    | written c hooks =>
      obtain ⟨rfl, hdone⟩ := hresolution
      exact hsettled hooks hdone
    | dropped c hooks =>
      obtain ⟨rfl, hdone⟩ := hresolution
      exact hsettled hooks hdone
    | erroredRouted c hooks =>
      obtain ⟨rfl, hdone⟩ := hresolution
      exact hsettled hooks hdone

variable [DecidableEq α]

/-! ### A whole batch -/

include hrely in
omit [DecidableEq α] in
/-- Where the write of a batch fails as a whole, every record of it is settled. -/
theorem safe_writeItems_watching {batch : List (PendingWrite α χ)}
    (hawaits : d.Awaits w.trace (batch.map PendingWrite.checkpoint)) :
    (d.writeItems batch : Delivery ℓ α χ (Option (List WriteResult))).Safe (d.watching assume rely)
      (fun written _ w' => w.trace <+: w'.trace ∧
        (written = none → AllSettled w'.trace (batch.map PendingWrite.checkpoint)))
      (fun _ _ _ => True) w₀ w := by
  unfold writeItems catchSinkException
  rw [safe_catchException, safe_bind]
  have hwrite : (d.writeBatch (batch.map PendingWrite.processed) :
      Delivery ℓ α χ (List WriteResult)).Within (resolveFrame ℓ fun _ => False) := d.within_writeBatch _
  refine (safe_watching_grows hrely hwrite).mono (fun results _ w₁ hw₁ => ⟨hw₁, nofun⟩)
    fun exc _ w₁ hw₁ => ?_
  split
  · split
    · trivial
    · rw [safe_bind]
      have hnothing : d.Awaits w₁.trace ([] ++ batch.map PendingWrite.checkpoint) := hawaits.mono hw₁
      exact (safe_flushBatchOutcomesFrom_watching hrely exc batch hnothing nofun
        (pendingCovered_none _)).mono (fun _ _ w₂ hw₂ => ⟨hw₁.trans hw₂.1, fun _ => hw₂.2⟩)
        fun _ _ _ he => he
  · trivial

include hrely in
/-- The delivery of a batch, given how it is committed when every record was written. -/
theorem safe_deliverBatch_watching {batch : List (PendingWrite α χ)}
    (hawaits : d.Awaits w.trace (batch.map PendingWrite.checkpoint)) {commit : Delivery ℓ α χ Unit}
    (hcommit : ∀ {w₀ w' : RunWorld ℓ α χ}, w.trace <+: w'.trace → commit.Safe (d.watching assume rely)
      (fun _ _ w'' => w'.trace <+: w''.trace ∧
        AllSettled w''.trace (batch.map PendingWrite.checkpoint)) (fun _ _ _ => True) w₀ w') :
    (do
      let written ← d.writeItems batch
      match written with
      | none => pure ()
      | some writeResults => do
        validateWriteResultCount "" batch.length writeResults.length
        if writeResults.all WriteResult.ok then commit
        else do
          let outcomes ← d.resolveRecords (batch.zip writeResults)
          d.commitOutcomes outcomes : Delivery ℓ α χ Unit).Safe (d.watching assume rely)
      (fun _ _ w' => w.trace <+: w'.trace ∧ AllSettled w'.trace (batch.map PendingWrite.checkpoint))
      (fun _ _ _ => True) w₀ w := by
  rw [safe_bind]
  refine (safe_writeItems_watching hrely hawaits).mono (fun written _ w₁ hw₁ => ?_) fun _ _ _ he => he
  cases written with
  | none => exact ⟨hw₁.1, hw₁.2 rfl⟩
  | some writeResults =>
    rw [safe_bind]
    unfold validateWriteResultCount
    by_cases hlength : writeResults.length ≠ batch.length
    · rw [if_pos hlength]
      trivial
    · rw [if_neg hlength, pure_eq_ret, safe_ret]
      split
      · exact (hcommit hw₁.1).mono (fun _ _ _ hw₂ => ⟨hw₁.1.trans hw₂.1, hw₂.2⟩) fun _ _ _ he => he
      · -- the results are resolved one by one and committed up to the first that stops the run
        rw [safe_bind]
        refine (safe_resolveRecords_watching hrely _).mono (fun outcomes _ w₂ hw₂ => ?_)
          fun _ _ _ he => he
        have houtcomes := List.forall₂_map_left_iff.mpr hw₂.2
        have hzip : (batch.zip writeResults).map (fun item => item.1.checkpoint) =
            batch.map PendingWrite.checkpoint := by
          have hfst : (batch.zip writeResults).map Prod.fst = batch :=
            List.map_fst_zip (not_not.mp hlength).ge
          calc (batch.zip writeResults).map (fun item => item.1.checkpoint)
              = ((batch.zip writeResults).map Prod.fst).map PendingWrite.checkpoint := by
                rw [List.map_map]; rfl
            _ = batch.map PendingWrite.checkpoint := by rw [hfst]
        rw [hzip] at houtcomes
        have hgrows := hw₁.1.trans hw₂.1
        have hnothing : d.Awaits w₂.trace ([] ++ batch.map PendingWrite.checkpoint) :=
          hawaits.mono hgrows
        exact (safe_commitOutcomesFrom_watching hrely hnothing nofun
          houtcomes (pendingCovered_none _)).mono (fun _ _ _ hw₃ => ⟨hgrows.trans hw₃.1, hw₃.2⟩)
          fun _ _ _ he => he

include hrely in
/-- The flush of a batch of unsettled records settles all of them, or raises. -/
theorem safe_flushBatch_watching {batch : List (PendingWrite α χ)}
    (hawaits : d.Awaits w.trace (batch.map PendingWrite.checkpoint)) :
    (d.flushBatch batch : Delivery ℓ α χ Unit).Safe (d.watching assume rely)
      (fun _ _ w' => w.trace <+: w'.trace ∧ AllSettled w'.trace (batch.map PendingWrite.checkpoint))
      (fun _ _ _ => True) w₀ w := by
  refine safe_deliverBatch_watching hrely hawaits fun {w₀ w₁} hw₁ => ?_
  unfold commitPendingWriteSuccessBatch
  rw [safe_bind]
  refine safe_count fun w₂ _ htrace => ?_
  rw [safe_bind]
  refine (safe_noteWritten_watching batch).mono (fun _ _ w₃ hw₃ => ?_) fun _ _ _ he => he
  rw [htrace] at hw₃
  have hcovers : ∀ item ∈ batch, ∀ value, item.checkpoint = some value →
      d.Covered w₃.trace value := by
    intro item hitem value hvalue
    refine (hawaits.mono (hw₁.trans hw₃.1)).covers_of_mem (accounts_of_allSettled hw₃.2) ?_
    exact List.mem_map.mpr ⟨item, hitem, hvalue⟩
  exact (safe_commitSuccessFrom_watching hrely batch hcovers (pendingCovered_none _)).mono
    (fun _ _ _ hw₄ => ⟨hw₃.1.trans hw₄, hw₃.2.mono hw₄⟩) fun _ _ _ he => he

/-! ### The direct flush -/

include hrely in
omit [DecidableEq χ] in
/-- Collecting the hooks of a batch leaves its checkpoints as they are. -/
theorem safe_collectHooks_watching (items : List (PendingWrite α χ)) :
    (collectHooks items : Delivery ℓ α χ (List (PendingWrite α χ))).Safe (d.watching assume rely)
      (fun batch _ w' => w.trace <+: w'.trace ∧
        batch.map PendingWrite.checkpoint = items.map PendingWrite.checkpoint)
      (fun _ _ _ => True) w₀ w := by
  induction items generalizing w₀ w with
  | nil => exact ⟨List.prefix_rfl, rfl⟩
  | cons item items ih =>
    unfold collectHooks
    rw [safe_bind]
    have hhooks : (successHookFor item.raw (some item.processed) item.onSuccess :
        Delivery ℓ α χ (List Hook)).Within (resolveFrame ℓ fun _ => False) :=
      within_successHookFor _ _ _
    refine (safe_watching_grows hrely hhooks).mono (fun hooks _ w₁ hw₁ => ?_) fun _ _ _ _ => trivial
    rw [safe_bind]
    refine ih.mono (fun batch _ w₂ hw₂ => ?_) fun _ _ _ he => he
    exact ⟨hw₁.trans hw₂.1, by rw [List.map_cons, List.map_cons, hw₂.2]⟩

include hrely in
omit [DecidableEq α] in
/-- The save for a batch counts a record that is covered. -/
theorem safe_saveBatchCheckpoint_watching {value : Option χ}
    (hvalue : ∀ v, value = some v → d.Covered w.trace v) (batchSize : ℕ) :
    (d.saveBatchCheckpoint value batchSize : Delivery ℓ α χ Unit).Safe (d.watching assume rely)
      (fun _ _ w' => w.trace <+: w'.trace) (fun _ _ _ => True) w₀ w := by
  unfold saveBatchCheckpoint
  split
  · rename_i v _
    split
    · exact List.prefix_rfl
    · unfold countProcessed
      rw [safe_bind, safe_bind]
      refine safe_modify_of fun w' _ htrace => ?_
      rw [← htrace] at hvalue ⊢
      rw [safe_bind, safe_read]
      split
      · exact safe_persistCheckpoint_watching hrely (hvalue v rfl) batchSize
      · exact List.prefix_rfl
  · exact List.prefix_rfl

omit [DecidableEq χ] in
/-- Collecting the hooks of a batch stays within the frame of resolving. -/
theorem within_collectHooks (items : List (PendingWrite α χ)) :
    (collectHooks items : Delivery ℓ α χ (List (PendingWrite α χ))).Within (resolveFrame ℓ M) := by
  induction items with
  | nil => exact within_ret _
  | cons item items ih =>
    exact within_bind (within_successHookFor _ _ _) fun _ => within_bind ih fun _ => within_ret _

/-- The direct flush stays within the frame of the engine. -/
theorem within_flushBatchDirect (hM : AllowsWrites M) (items : List (PendingWrite α χ)) :
    (d.flushBatchDirect items : Delivery ℓ α χ Unit).Within (deliveryFrame ℓ M) := by
  refine within_ite (within_ret ()) (within_bind (within_of_resolve (within_collectHooks items))
    fun batch => within_bind (d.within_writeItems hM batch) fun written => ?_)
  cases written with
  | none => exact within_ret ()
  | some writeResults =>
    refine within_bind (within_validateWriteResultCount _ _ _) fun _ => within_ite ?_ ?_
    · refine within_bind (within_of_resolve (within_count _)) fun _ =>
        within_bind (within_of_resolve (within_noteWritten hM batch)) fun _ => ?_
      exact within_ite (within_bind (d.within_saveBatchCheckpoint _ _) fun _ =>
        within_of_resolve (within_runHooks _)) (within_of_resolve (within_runHooks _))
    · exact within_bind (within_of_resolve (d.within_resolveRecords hM _)) fun _ =>
        d.within_commitOutcomesFrom _ _

include hrely in
/-- The direct flush of a batch of unsettled records settles all of them, or raises. -/
theorem safe_flushBatchDirect_watching {items : List (PendingWrite α χ)}
    (hawaits : d.Awaits w.trace (items.map PendingWrite.checkpoint)) :
    (d.flushBatchDirect items : Delivery ℓ α χ Unit).Safe (d.watching assume rely)
      (fun _ _ w' => w.trace <+: w'.trace ∧ AllSettled w'.trace (items.map PendingWrite.checkpoint))
      (fun _ _ _ => True) w₀ w := by
  unfold flushBatchDirect
  split
  · rename_i hempty
    rw [List.isEmpty_iff.mp hempty]
    exact ⟨List.prefix_rfl, allSettled_nil _⟩
  · rw [safe_bind]
    refine (safe_collectHooks_watching hrely items).mono (fun batch _ w₁ hw₁ => ?_) fun _ _ _ he => he
    obtain ⟨hgrows, hbatch⟩ := hw₁
    have hawaits₁ := hawaits.mono hgrows
    rw [← hbatch] at hawaits₁ ⊢
    refine (safe_deliverBatch_watching hrely hawaits₁ fun {w₀ w₂} hw₂ => ?_).mono
      (fun _ _ _ hw₂ => ⟨hgrows.trans hw₂.1, hw₂.2⟩) fun _ _ _ he => he
    unfold commitDirect
    rw [safe_bind]
    refine safe_count fun w₃ _ htrace => ?_
    rw [safe_bind]
    refine (safe_noteWritten_watching batch).mono (fun _ _ w₄ hw₄ => ?_) fun _ _ _ he => he
    rw [htrace] at hw₄
    have hhooks : ∀ {w₀ w' : RunWorld ℓ α χ}, w₄.trace <+: w'.trace →
        (runHooks (batch.flatMap PendingWrite.onSuccess) : Delivery ℓ α χ Unit).Safe
          (d.watching assume rely) (fun _ _ w'' => w₂.trace <+: w''.trace ∧
            AllSettled w''.trace (batch.map PendingWrite.checkpoint)) (fun _ _ _ => True) w₀ w' := by
      intro w₀ w' hw'
      refine (safe_watching_grows hrely (within_runHooks (M := fun _ => False) _)).mono
        (fun _ _ w'' hw'' => ?_) fun _ _ _ _ => trivial
      exact ⟨(hw₄.1.trans hw').trans hw'', hw₄.2.mono (hw'.trans hw'')⟩
    split
    · rw [safe_bind]
      refine (safe_saveBatchCheckpoint_watching hrely (fun v hv => ?_) _).mono
        (fun _ _ w₅ hw₅ => hhooks hw₅) fun _ _ _ he => he
      refine (hawaits₁.mono (hw₂.trans hw₄.1)).covers_of_mem (accounts_of_allSettled hw₄.2) ?_
      obtain ⟨item, hitem, hv⟩ := Option.bind_eq_some_iff.mp hv
      exact List.mem_map.mpr ⟨item, List.mem_of_getLast? hitem, hv⟩
    · exact hhooks List.prefix_rfl

/-! ### Dropped records -/

section Drop

variable (hadvances : ∀ w w', rely w w' → Advances w.trace w'.trace)

include hadvances in
omit [DecidableEq α] [DecidableEq χ] in
/-- A watched program that saves nothing takes no record in. -/
theorem safe_watching_advances {p : Delivery ℓ α χ β}
    (hp : p.Within (resolveFrame ℓ fun m => ¬ m.TakesIn)) :
    p.Safe (d.watching assume rely) (fun _ _ w' => Advances w.trace w'.trace)
      (fun _ _ w' => Advances w.trace w'.trace) w₀ w :=
  safe_watching_of_resolve (fun _ _ hm ht => ht.trans (.mark _ hm))
    (fun _ _ _ ht => ht.trans (.called _ _ _)) (fun _ _ hr ht => ht.trans (hadvances _ _ hr)) hp (.refl _)

variable (hassume : ∀ t, assume t (.mark (.dropping true)) → AllSettled t (acceptedCheckpoints t))

include hadvances hassume in
omit [DecidableEq α] in
/-- A record that was dropped saves its checkpoint only if that covers handled records. -/
theorem safe_finishDrop_watching {checkpoint : Option χ}
    (hcovers : AllSettled w.trace (acceptedCheckpoints w.trace) →
      ∀ value, checkpoint = some value → d.Covered w.trace value) (onSuccess : List Hook) :
    (d.finishDrop checkpoint onSuccess : Delivery ℓ α χ Unit).Safe (d.watching assume rely)
      (fun _ _ w' => w.trace <+: w'.trace) (fun _ _ _ => True) w₀ w := by
  have hrely : ∀ w w', rely w w' → w.trace <+: w'.trace := fun w w' hr => (hadvances w w' hr).grows
  unfold finishDrop
  rw [safe_bind, safe_read, safe_bind, safe_note]
  refine fun hdropping => ⟨savesCovered_mark _ _, ?_⟩
  have hmarked : w.trace <+: (w.mark (.dropping (d.checkpointDue w.state checkpoint))).trace :=
    List.prefix_append _ _
  have hhooks : ∀ {w₀ w' : RunWorld ℓ α χ}, w.trace <+: w'.trace →
      (runHooks onSuccess : Delivery ℓ α χ Unit).Safe (d.watching assume rely)
        (fun _ _ w'' => w.trace <+: w''.trace) (fun _ _ _ => True) w₀ w' := fun hw' =>
    (safe_watching_grows hrely (within_runHooks (M := fun _ => False) _)).mono
      (fun _ _ _ hw'' => hw'.trans hw'') fun _ _ _ _ => trivial
  rw [safe_bind]
  unfold saveCheckpoint prepareCheckpoint
  rw [safe_bind]
  split
  · rename_i value hstore
    unfold countProcessed
    rw [safe_bind]
    refine safe_modify_of fun w₁ hstate htrace => ?_
    rw [safe_bind, safe_read]
    split
    · -- a save is due, and the mark before it has said so
      rename_i hdue
      have hdue : d.checkpointDue w.state (some value) = true := by
        rw [hstate] at hdue
        simpa [checkpointDue, hstore] using hdue
      rw [hdue] at hdropping
      have hvalue := (hcovers (hassume _ hdropping) value rfl).mono hmarked
      rw [← htrace] at hvalue hmarked
      exact (safe_persistCheckpoint_watching hrely hvalue 1).mono
        (fun _ _ _ hw₂ => hhooks (hmarked.trans hw₂)) fun _ _ _ he => he
    · exact hhooks (htrace ▸ hmarked)
  · exact hhooks hmarked

variable {r : SourceRecord α χ}

include hadvances hassume in
omit [DecidableEq α] in
/-- A record that is settled saves its checkpoint only if that covers handled records: every record
before it was accepted or is accounted for. -/
theorem safe_settleDrop_watching (hlast : d.ConsumedLast w.trace r) (how : Handling)
    (onSuccess : List Hook) :
    (do
      note (.settled r.checkpoint how)
      d.finishDrop r.checkpoint onSuccess : Delivery ℓ α χ Unit).Safe (d.watching assume rely)
      (fun _ _ w' => d.Accounts w'.trace r.checkpoint) (fun _ _ _ => True) w₀ w := by
  rw [safe_bind, safe_note]
  refine fun _ => ⟨savesCovered_mark _ _, ?_⟩
  have hmarked : Advances w.trace (w.mark (.settled r.checkpoint how)).trace := .mark _ id
  have hsettled : IsSettled (w.mark (.settled r.checkpoint how)).trace r.checkpoint :=
    isSettled_mark _ _ _
  refine (safe_finishDrop_watching hadvances hassume (fun haccepted value hvalue => ?_)
    onSuccess).mono (fun _ _ _ hgrows => (accounts_of_settled hsettled).mono hgrows)
      fun _ _ _ he => he
  obtain ⟨before, hconsumed, hbefore⟩ := hlast.advance hmarked
  refine ⟨before, r, [], hconsumed, hvalue, fun r' hr' => ?_⟩
  rcases List.mem_append.mp hr' with hr' | hr'
  · exact (hbefore r' hr').elim id fun hmem => accounts_of_settled (haccepted _ hmem)
  · rw [List.mem_singleton.mp hr']
    exact accounts_of_settled hsettled

include hadvances hassume in
/-- A record that the chain fails is settled unless the failure was not captured and there is a
checkpoint to save; then it raises. -/
theorem safe_failDrop_watching (hlast : d.ConsumedLast w.trace r) (f : MiddlewareFailure α)
    (onSuccess : List Hook) :
    (do
      let routed ← d.writeToDlq f.stage f.exception f.record none r.checkpoint (some f.middleware)
      countErrored 1
      if d.dlqSink && !routed then do
        discardSuccessHooks [f.record]
        if d.checkpointStore && r.checkpoint.isSome then raiseRecordDelivery f.exception
        else pure ()
      else do
        note (.settled r.checkpoint (failureHandling routed))
        d.finishDrop r.checkpoint onSuccess : Delivery ℓ α χ Unit).Safe (d.watching assume rely)
      (fun _ _ w' => d.Accounts w'.trace r.checkpoint) (fun _ _ _ => True) w₀ w := by
  rw [safe_bind]
  refine (safe_watching_advances hadvances (d.within_writeToDlq (fun _ => id) _ _ _ _ _)).mono
    (fun routed _ w₁ hw₁ => ?_) fun _ _ _ _ => trivial
  rw [safe_bind]
  refine safe_count fun w₂ _ htrace₂ => ?_
  rw [← htrace₂] at hw₁
  split
  · -- the failure was not captured: without a checkpoint to save nothing has to be accounted for
    rw [safe_bind]
    refine (safe_watching_advances hadvances (within_discardSuccessHooks _)).mono
      (fun _ _ w₃ hw₃ => ?_) fun _ _ _ _ => trivial
    split
    · trivial
    · rename_i hnot
      intro hstore hsome
      exact absurd (by rw [hstore, hsome]; rfl) hnot
  · exact safe_settleDrop_watching hadvances hassume (hlast.advance hw₁) _ onSuccess

include hadvances hassume in
/-- A record that the chain drops or fails saves its checkpoint only if that covers handled records:
every record before it was accepted or is accounted for. -/
theorem safe_dropRecord_watching {before : List (SourceRecord α χ)}
    (hconsumed : consumedRecords w.trace = before ++ [r])
    (hbefore : ∀ r' ∈ before, d.Accounts w.trace r'.checkpoint ∨
      r'.checkpoint ∈ acceptedCheckpoints w.trace)
    (failure : Option (MiddlewareFailure α)) (onSuccess : List Hook) (hookRecord : Option α) :
    (d.dropRecord r.checkpoint failure onSuccess hookRecord : Delivery ℓ α χ Unit).Safe
      (d.watching assume rely) (fun _ _ w' => d.Accounts w'.trace r.checkpoint)
      (fun _ _ _ => True) w₀ w := by
  have hlast : d.ConsumedLast w.trace r := ⟨before, hconsumed, hbefore⟩
  have hdropped : ∀ (hooks : List Hook) {w₀ w' : RunWorld ℓ α χ}, Advances w.trace w'.trace → (do
        countDropped 1
        note (.settled r.checkpoint .dropped)
        d.finishDrop r.checkpoint hooks : Delivery ℓ α χ Unit).Safe (d.watching assume rely)
        (fun _ _ w'' => d.Accounts w''.trace r.checkpoint) (fun _ _ _ => True) w₀ w' := by
    intro hooks w₀ w' hw'
    rw [safe_bind]
    exact safe_count fun w'' _ htrace =>
      safe_settleDrop_watching hadvances hassume (hlast.advance (htrace ▸ hw')) .dropped hooks
  have hhooks : ∀ (record : α) {w₀ : RunWorld ℓ α χ}, (successHookFor record none onSuccess :
      Delivery ℓ α χ (List Hook)).Safe (d.watching assume rely)
      (fun _ _ w' => Advances w.trace w'.trace) (fun _ _ _ => True) w₀ w := fun record _ =>
    (safe_watching_advances hadvances (within_successHookFor _ _ _)).mono (fun _ _ _ h => h)
      fun _ _ _ _ => trivial
  unfold dropRecord
  match hookRecord, failure with
  | some record, none =>
    rw [safe_bind]
    exact (hhooks record).mono (fun hooks _ _ h => hdropped hooks h) fun _ _ _ he => he
  | some record, some f =>
    rw [safe_bind]
    exact (hhooks record).mono (fun hooks _ _ h =>
      safe_failDrop_watching hadvances hassume (hlast.advance h) f hooks) fun _ _ _ he => he
  | none, some f =>
    rw [safe_bind]
    exact (hhooks f.record).mono (fun hooks _ _ h =>
      safe_failDrop_watching hadvances hassume (hlast.advance h) f hooks) fun _ _ _ he => he
  | none, none => exact hdropped onSuccess (.refl _)

end Drop

end Commit

end Watching

end DeliveryEngine

end AgoraEtl
