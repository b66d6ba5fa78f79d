import AgoraEtl.Middleware.Chain

/-!
# The length and alignment contract of a batch middleware

On the batch path the records that are gone are taken out before the call of `process_batch` and the
results are put back after it.  The two list functions for this are inverse to each other in the sense
of `getElem?_scatter`: a record finds the result that stands where the record stood in the call.  The
per-record fallback calls `process_batch` with one record and takes the first result, if there is one.
-/

namespace AgoraEtl

open Effect Program

namespace MiddlewareChain

variable {ℓ α χ : Type}

/-! ## Taking records out and putting results back -/

/-- The place of a position among the records that are still there: the number of those before it. -/
def activeIndex (current : List (Option α)) (i : ℕ) : ℕ := (current.take i).countP Option.isSome

theorem length_scatter (current results : List (Option α)) :
    (scatter current results).length = current.length := by
  induction current generalizing results with
  | nil => rfl
  | cons record? current ih =>
    cases record? with
    | none => rw [scatter, List.length_cons, ih, List.length_cons]
    | some record =>
      cases results <;> rw [scatter, List.length_cons, ih, List.length_cons]

/-- A record is called with at its place. -/
theorem getElem?_active {current : List (Option α)} {i : ℕ} {record : α}
    (h : current[i]? = some (some record)) :
    (current.filter Option.isSome)[activeIndex current i]? = some (some record) := by
  induction current generalizing i with
  | nil => simp at h
  | cons record? current ih =>
    cases i with
    | zero =>
      rw [List.getElem?_cons_zero] at h
      obtain rfl := Option.some.inj h
      rfl
    | succ i =>
      rw [List.getElem?_cons_succ] at h
      cases record? with
      | none => exact ih h
      | some first =>
        have hrest := ih h
        unfold activeIndex at hrest ⊢
        rw [List.take_succ_cons, List.countP_cons_of_pos rfl, List.filter_cons_of_pos rfl,
          List.getElem?_cons_succ, hrest]

/-- A record finds the result at its place, and a hole stays a hole. -/
theorem getElem?_scatter {current results : List (Option α)}
    (hlength : results.length = (current.filter Option.isSome).length) (i : ℕ) :
    (scatter current results)[i]? = current[i]?.bind fun
      | some _ => results[activeIndex current i]?
      | none => some none := by
  induction current generalizing results i with
  | nil => rfl
  | cons record? current ih =>
    cases record? with
    | none =>
      rw [scatter]
      cases i with
      | zero => rfl
      | succ i => exact ih hlength i
    | some record =>
      cases results with
      | nil => simp at hlength
      | cons result results =>
        rw [scatter]
        cases i with
        | zero => rfl
        | succ i =>
          have hrest := ih (by simpa using hlength) i
          unfold activeIndex at hrest ⊢
          rw [List.getElem?_cons_succ, hrest, List.getElem?_cons_succ, List.take_succ_cons,
            List.countP_cons_of_pos rfl]
          rfl

/-- Without holes the results are what is put back. -/
theorem scatter_of_all {current results : List (Option α)} (hall : current.all Option.isSome = true)
    (hlength : results.length = (current.filter Option.isSome).length) :
    scatter current results = results := by
  induction current generalizing results with
  | nil => exact (List.length_eq_zero_iff.mp hlength).symm
  | cons record? current ih =>
    rw [List.all_cons, Bool.and_eq_true] at hall
    cases record? with
    | none => exact nomatch hall.1
    | some record =>
      cases results with
      | nil => simp at hlength
      | cons result results => rw [scatter, ih hall.2 (by simpa using hlength)]

/-! ## The two paths -/

section Paths

variable [DecidableEq α] (h : Environment α χ) (w : RunWorld ℓ α χ) (name : String) (limit : ℕ)
  (index : ℕ)

/-- What `process_batch` returns or raises in the world. -/
def batchAnswer (records : List (Option α)) : Except Exc (List (Option α)) :=
  h w.trace (.await (.processBatch index records))

/-- How `apply_in_batch` of a batch middleware ends. -/
def batchEnd (current : List (Option α)) : Outcome Exc (StageResult α) :=
  ((applyInBatch ⟨name, .batch, limit⟩ index current :
    Delivery ℓ α χ (StageResult α)).run h w).1

/-- How `process` of a batch middleware ends. -/
def recordEnd (record : α) : Outcome Exc (Option α) :=
  (((⟨name, .batch, limit⟩ : Middleware).process index record : Delivery ℓ α χ (Option α)).run h w).1

/-- The batch path keeps the length and the places: a hole stays a hole, a record stands in the call after
the records before it and gets the result at that place, and a result list of another length is an
error. -/
def BatchAligned (current : List (Option α)) : Prop :=
  match batchAnswer h w index (current.filter Option.isSome) with
  | .ok results =>
    if results.length = (current.filter Option.isSome).length then
      ∃ updated : List (Option α),
        batchEnd h w name limit index current = .returned (.inr updated) ∧
        updated.length = current.length ∧
        (∀ i : ℕ, current[i]? = some none → updated[i]? = some none) ∧
        ∀ (i : ℕ) record, current[i]? = some (some record) →
          (current.filter Option.isSome)[activeIndex current i]? = some (some record) ∧
          updated[i]? = results[activeIndex current i]?
    else ∃ exc, batchEnd h w name limit index current = .raised exc
  | .error exc =>
    if exc.isException then batchEnd h w name limit index current = .returned (.inl ⟨exc, name⟩)
    else batchEnd h w name limit index current = .raised exc

/-- The fallback takes the one result, and a result list of another length is an error. -/
def RecordAligned (record : α) : Prop :=
  match batchAnswer h w index [some record] with
  | .ok [result] => recordEnd h w name limit index record = .returned result
  | .ok _ => ∃ exc, recordEnd h w name limit index record = .raised exc
  | .error exc => recordEnd h w name limit index record = .raised exc

/-- Where `process_batch` maps each record on its own, both paths give the same value. -/
def PathsAgree (current : List (Option α)) : Prop :=
  ∀ g : α → Option α,
    (∀ t records, h t (.await (.processBatch index records)) =
      .ok (records.map (Option.bind · g))) →
    ∃ updated : List (Option α),
      batchEnd h w name limit index current = .returned (.inr updated) ∧
      ∀ (i : ℕ) record, current[i]? = some (some record) → updated[i]? = some (g record) ∧
        ∀ w' : RunWorld ℓ α χ, recordEnd h w' name limit index record = .returned (g record)

variable {h w name limit index}

theorem batchEnd_eq (current : List (Option α)) :
    batchEnd h w name limit index current =
      match batchAnswer h w index (current.filter Option.isSome) with
      | .ok results =>
        if results.length = (current.filter Option.isSome).length then
          .returned (.inr (scatter current results))
        else .raised (Middleware.batchLengthError name results.length
          (current.filter Option.isSome).length)
      | .error exc => if exc.isException then .returned (.inl ⟨exc, name⟩) else .raised exc := by
  unfold batchEnd applyInBatch applyBatchMiddleware Middleware.processBatch batchAnswer
  simp only [run_bind, run_attempt, invoke, run_perform]
  cases h w.trace (.await (.processBatch index (current.filter Option.isSome))) with
  | error exc =>
    cases hexc : exc.isException <;> simp [Outcome.caught, hexc]
  | ok results =>
    by_cases hlength : results.length = (current.filter Option.isSome).length
    · by_cases hall : current.all Option.isSome = true
      · simp [Outcome.caught, hlength, hall, scatter_of_all hall hlength]
      · simp [Outcome.caught, hlength, hall]
    · simp [Outcome.caught, hlength]

theorem recordEnd_eq (record : α) :
    recordEnd h w name limit index record =
      match batchAnswer h w index [some record] with
      | .ok results => .returned (results.head?.bind id)
      | .error exc => .raised exc := by
  unfold recordEnd Middleware.process batchAnswer
  simp only [run_bind, invoke, run_perform]
  cases h w.trace (.await (.processBatch index [some record])) <;> rfl

/-- The batch path keeps the contract, whatever `process_batch` returns. -/
theorem batchAligned (current : List (Option α)) :
    BatchAligned h w name limit index current := by
  unfold BatchAligned
  rw [batchEnd_eq]
  cases batchAnswer h w index (current.filter Option.isSome) with
  | error exc => cases exc.isException <;> simp
  | ok results =>
    dsimp only
    split
    next hlength =>
      refine ⟨_, rfl, length_scatter current results, fun i hi => ?_, fun i record hi => ?_⟩
      · rw [getElem?_scatter hlength, hi]
        rfl
      · refine ⟨getElem?_active hi, ?_⟩
        rw [getElem?_scatter hlength, hi]
        rfl
    next => exact ⟨_, rfl⟩

/-- The fallback keeps the contract exactly where one record gives one result. -/
theorem recordAligned_iff (record : α) :
    RecordAligned h w name limit index record ↔
      ∀ results, batchAnswer h w index [some record] = .ok results → results.length = 1 := by
  unfold RecordAligned
  rw [recordEnd_eq]
  cases batchAnswer h w index [some record] with
  | error exc => simp
  | ok results =>
    match results with
    | [] => simp
    | [result] => simp
    | first :: second :: rest => simp

/-- A `process_batch` that maps each record on its own gives the same on both paths. -/
theorem pathsAgree (current : List (Option α)) : PathsAgree h w name limit index current := by
  intro g hg
  have hlength : ((current.filter Option.isSome).map (Option.bind · g)).length =
      (current.filter Option.isSome).length := List.length_map _
  have hanswer : batchAnswer h w index (current.filter Option.isSome) =
      .ok ((current.filter Option.isSome).map (Option.bind · g)) := hg w.trace _
  refine ⟨scatter current ((current.filter Option.isSome).map (Option.bind · g)), ?_,
    fun i record hi => ⟨?_, fun w' => ?_⟩⟩
  · rw [batchEnd_eq, hanswer]
    dsimp only
    rw [if_pos hlength]
  · rw [getElem?_scatter hlength, hi]
    change ((current.filter Option.isSome).map (Option.bind · g))[activeIndex current i]? = _
    rw [List.getElem?_map, getElem?_active hi]
    rfl
  · have hone : batchAnswer h w' index [some record] = .ok [g record] := hg w'.trace _
    rw [recordEnd_eq, hone]
    rfl

/-- Every `process_batch` returns the empty list. -/
def emptyResults : Environment ℕ ℕ
  | _, .await (.processBatch _ _) => .ok []
  | t, o => undisturbed t o

end Paths

end MiddlewareChain

end AgoraEtl
