import AgoraEtl.Lanes.BufferedRule

/-!
# The order in which the buffered lane hands over records

Records leave the deque at its head, so they are handed to the delivery engine in source order whatever
the order in which their futures complete.  A record that is dropped or fails before the first buffered
stage is handed over at once, and overtakes the records that are pending at that moment.
-/

namespace AgoraEtl

open Effect Program

variable {α χ : Type}

/-- The records handed to the delivery engine, in this order. -/
def dispatchedRecords (t : RunTrace α χ) : List (SourceRecord α χ) :=
  marked (fun | .dispatched record _ _ => some record | _ => none) t

/-- For each record that did not get as far as the first buffered stage, how many records were pending
when it was handed over. -/
def prefixRejections (t : RunTrace α χ) : List ℕ :=
  marked (fun | .prefixRejected pending => some pending | _ => none) t

/-- A record that does not get as far as the first buffered stage finds no record pending. -/
def RejectsWhenEmpty (_ : RunTrace α χ) (e : Event (Call α χ) Call.Ret (Mark α χ)) : Prop :=
  ∀ n, e = .mark (.prefixRejected n) → n = 0

/-- The records handed over so far stand in this order in the stream. -/
def HandsInOrder (records : List (SourceRecord α χ)) (t : RunTrace α χ)
    (e : Event (Call α χ) Call.Ret (Mark α χ)) : Prop :=
  ∀ record result failure, e = .mark (.dispatched record result failure) →
    (dispatchedRecords t ++ [record]).Sublist records

theorem dispatchedRecords_mark_of_ne {t : RunTrace α χ} {m : Mark α χ}
    (hm : ∀ record result failure, m ≠ .dispatched record result failure) :
    dispatchedRecords (t ++ [.mark m]) = dispatchedRecords t := by
  cases m with
  | dispatched record result failure => exact absurd rfl (hm record result failure)
  | _ => simp [dispatchedRecords]

/-- A mark of another part of the program hands nothing over. -/
theorem dispatchedRecords_quiet {t : RunTrace α χ} {m : Mark α χ} (hm : m.Quiet) :
    dispatchedRecords (t ++ [.mark m]) = dispatchedRecords t := by
  refine dispatchedRecords_mark_of_ne fun record result failure he => ?_
  rw [he] at hm
  cases hm

@[simp] theorem dispatchedRecords_called (t : RunTrace α χ) (o : Call α χ) (r : o.Ret) :
    dispatchedRecords (t ++ [.called o r]) = dispatchedRecords t := by
  simp [dispatchedRecords]

@[simp] theorem dispatchedRecords_dispatched (t : RunTrace α χ) (record : SourceRecord α χ)
    (result : Option α) (failure : Option (MiddlewareFailure α)) :
    dispatchedRecords (t ++ [.mark (.dispatched record result failure)]) =
      dispatchedRecords t ++ [record] := by
  simp [dispatchedRecords]

/-- If every hand-over keeps the order, then the whole list stands in this order in the stream. -/
theorem dispatchedRecords_sublist {records : List (SourceRecord α χ)} {t : RunTrace α χ}
    (h : Along (HandsInOrder records) [] t) : (dispatchedRecords t).Sublist records := by
  induction t using List.reverseRecOn with
  | nil => exact List.nil_sublist _
  | append_singleton t e ih =>
    obtain ⟨hbefore, hlast, -⟩ := along_append.mp h
    rw [List.nil_append] at hlast
    cases e with
    | called o r =>
      rw [dispatchedRecords_called]
      exact ih hbefore
    | mark m =>
      cases m with
      | dispatched record result failure =>
        rw [dispatchedRecords_dispatched]
        exact hlast record result failure rfl
      | _ =>
        rw [dispatchedRecords_mark_of_ne fun _ _ _ he => by cases he]
        exact ih hbefore

section Rule

variable [DecidableEq α] {c : ExecutionCoordinator α χ} {v : BufferedVariant α χ} {splitIndex : ℕ}

/-- The records handed over, and after them the pending ones, stand in this order among the records
consumed. -/
structure InOrder (records consumed : List (SourceRecord α χ)) (pending : List (PendingRecord α χ))
    (t : RunTrace α χ) : Prop where
  consumed_sublist : consumed.Sublist records
  order : (dispatchedRecords t ++ pending.map PendingRecord.sourceRecord).Sublist consumed

/-- The record comes after those handed over and before the pending ones. -/
structure NextInOrder (records consumed : List (SourceRecord α χ))
    (pending : List (PendingRecord α χ)) (record : SourceRecord α χ) (t : RunTrace α χ) : Prop where
  consumed_sublist : consumed.Sublist records
  order : (dispatchedRecords t ++ record :: pending.map PendingRecord.sourceRecord).Sublist consumed

omit [DecidableEq α] in
/-- Only the list of the records handed over matters. -/
theorem InOrder.congr {records consumed : List (SourceRecord α χ)}
    {pending : List (PendingRecord α χ)} {t t' : RunTrace α χ}
    (ht : dispatchedRecords t' = dispatchedRecords t) (h : InOrder records consumed pending t) :
    InOrder records consumed pending t' := by
  constructor
  · exact h.consumed_sublist
  · rw [ht]
    exact h.order

/-- The buffered lane keeps the source order if no record overtakes pending ones. -/
def sourceOrderRule (hv : v.Framed) (records : List (SourceRecord α χ)) :
    BufferedRule c v splitIndex records RejectsWhenEmpty (HandsInOrder records) where
  inv := InOrder records
  handing := fun consumed pending record _ => NextInOrder records consumed pending record
  raised := fun _ _ _ => True
  ensure_mark := by
    intro t m hm _ record result failure he
    cases he
    cases hm
  ensure_call := fun _ _ _ _ he => by cases he
  inv_mark := fun hm h => h.congr (dispatchedRecords_quiet hm)
  inv_call := fun h => h.congr (dispatchedRecords_called _ _ _)
  raised_of_inv := fun _ => trivial
  interrupted := fun _ _ _ _ => trivial
  enter := by
    intro consumed record rest pending w₀ w hrecords hw
    have hnext : (consumed ++ [record]).Sublist records := by
      rw [hrecords]
      exact List.Sublist.append (List.Sublist.refl _) (List.singleton_sublist.mpr List.mem_cons_self)
    refine (hv.safe_enterRecord (T := InOrder records consumed pending) ?_ ?_ ?_ ?_ hw).mono
      (fun r _ w' hw' => ?_) fun _ _ w' hw' => ?_
    · intro t m hm _ record result failure he
      cases he
      cases hm
    · exact fun _ _ _ _ _ _ _ he => by cases he
    · exact fun _ _ hm h => h.congr (dispatchedRecords_quiet hm)
    · exact fun _ _ _ h => h.congr (dispatchedRecords_called _ _ _)
    · obtain ⟨hlane, hinv, hentry⟩ := hw'
      refine ⟨hlane, ?_⟩
      cases r with
      | inl outcome =>
        intro hassume
        -- nothing is pending, so the record is the next one
        have hnil : pending = [] := List.length_eq_zero_iff.mp (hassume _ rfl)
        constructor
        · exact fun record result failure he => by cases he
        · constructor
          · exact hnext
          · have horder := hinv.order
            rw [hnil, List.map_nil, List.append_nil] at horder
            rw [dispatchedRecords_mark_of_ne (fun _ _ _ he => by cases he), hnil, List.map_nil]
            exact horder.append (List.Sublist.refl _)
      | inr entry =>
        constructor
        · exact hnext
        · have horder := hinv.order
          rw [List.map_append, List.map_singleton, hentry entry rfl, ← List.append_assoc]
          exact horder.append (List.Sublist.refl _)
    · refine ⟨hw'.1, ?_⟩
      constructor
      · exact hnext
      · exact hw'.2.order.trans (List.sublist_append_left _ _)
  collect := by
    intro consumed entry pending w₀ w hw
    refine (hv.safe_collect (T := InOrder records consumed (entry :: pending)) ?_ ?_ ?_ ?_ hw).mono
      (fun _ _ w' hw' => ?_) fun _ _ w' hw' => ?_
    · intro t m hm _ record result failure he
      cases he
      cases hm
    · exact fun _ _ _ _ _ _ _ he => by cases he
    · exact fun _ _ hm h => h.congr (dispatchedRecords_quiet hm)
    · exact fun _ _ _ h => h.congr (dispatchedRecords_called _ _ _)
    · exact ⟨hw'.1, hw'.2.consumed_sublist, hw'.2.order⟩
    · refine ⟨hw'.1, hw'.2.consumed_sublist, ?_⟩
      -- the record that raised is lost, the others keep their order
      refine List.Sublist.trans ?_ hw'.2.order
      rw [List.map_cons]
      exact (List.Sublist.refl _).append (List.sublist_cons_self _ _)
  dispatch := by
    intro consumed pending record outcome t hnext _
    have horder := hnext.order
    constructor
    · intro record' result failure he
      cases he
      refine List.Sublist.trans ?_ (horder.trans hnext.consumed_sublist)
      refine (List.Sublist.refl _).append ?_
      exact (List.nil_sublist _).cons_cons record
    · constructor
      · exact hnext.consumed_sublist
      · rw [dispatchedRecords_dispatched, List.append_assoc]
        exact horder
  commitFailed := by
    intro consumed e streaming queued b t hinv _
    have hsame : dispatchedRecords (t ++ [.mark (.commitRaised e streaming b.futures queued)]) =
        dispatchedRecords t := dispatchedRecords_mark_of_ne fun _ _ _ he => by cases he
    refine ⟨?_, trivial, fun _ _ => .inl (hinv.congr hsame)⟩
    intro record result failure he
    cases he

end Rule

namespace ExecutionCoordinator

variable [DecidableEq α] [DecidableEq χ] (c : ExecutionCoordinator α χ)

/-- In every run of the buffered lane in which no record overtakes pending ones before the first
buffered stage, the records are handed to the delivery engine in source order. -/
theorem dispatchedRecords_inOrder (fuel : ℕ) (stages : List BufferedStageSpec) (currentLimit : ℕ)
    (records : List (SourceRecord α χ)) (h : Environment α χ) (lastSaved : Option χ)
    (turns : List Turn)
    (hempty : ∀ n ∈ prefixRejections
      (c.bufferedRun fuel stages currentLimit records h lastSaved turns).world.trace, n = 0) :
    (dispatchedRecords
      (c.bufferedRun fuel stages currentLimit records h lastSaved turns).world.trace).Sublist
        records := by
  have hsafe : (c.runBufferedLane fuel stages currentLimit records).Safe
      (laneContract RejectsWhenEmpty (HandsInOrder records)) (fun _ _ _ => True) (fun _ _ _ => True)
      ⟨RunState.initial ⟨[], 0⟩ lastSaved, []⟩ ⟨RunState.initial ⟨[], 0⟩ lastSaved, []⟩ := by
    have hstart : ∀ t : RunTrace α χ, t = [] → InOrder records [] [] t := by
      rintro t rfl
      exact ⟨List.nil_sublist _, List.Sublist.refl _⟩
    have hvariant : ∀ {first : BufferedStageSpec} {v : BufferedVariant α χ}, v.Framed →
        ∀ w : RunWorld (BufferedState α χ) α χ, w.state.lane.pendingRecords = [] → w.trace = [] →
        (c.runBuffered v fuel first.index records).Safe
          (laneContract RejectsWhenEmpty (HandsInOrder records)) (fun _ _ _ => True)
          (fun _ _ _ => True) ⟨RunState.initial ⟨[], 0⟩ lastSaved, []⟩ w := by
      intro first v hv w hpending htrace
      let rule : BufferedRule c v first.index records RejectsWhenEmpty (HandsInOrder records) :=
        sourceOrderRule hv records
      have hinv : rule.inv [] [] w.trace := hstart _ htrace
      exact (rule.safe_runBuffered hpending hinv).mono (fun _ _ _ _ => trivial)
        fun _ _ _ _ => trivial
    refine c.safe_runBufferedLane rfl (fun _ => trivial) (fun first _ w hpending htrace => ?_)
      fun first _ _ _ w hpending htrace => ?_
    · exact hvariant (c.framed_singleVariant first) w hpending htrace
    · exact hvariant (c.framed_multiVariant first) w hpending htrace
  have hmark : ∀ t (m : Mark α χ), m.IsDelivery → RejectsWhenEmpty t (.mark m) →
      HandsInOrder records t (.mark m) := by
    intro t m hm _ record result failure he
    cases he
    exact hm.elim
  have hcall : ∀ t (o : Call α χ) r, RejectsWhenEmpty t (.called o r) →
      HandsInOrder records t (.called o r) := by
    intro t o r _ record result failure he
    cases he
  obtain ⟨t, ht, hpost⟩ := c.delivery.withOwner_sound hmark hcall hsafe h turns rfl
  change (c.bufferedRun fuel stages currentLimit records h lastSaved turns).world.trace = _ at ht
  rw [List.nil_append] at ht
  rw [ht] at hempty ⊢
  have hassume : Along RejectsWhenEmpty [] t := by
    refine along_iff.mpr fun t₁ e t₂ ht' n he => ?_
    refine hempty n ((mem_marked _).mpr ⟨.prefixRejected n, ?_, rfl⟩)
    rw [ht', ← he]
    exact List.mem_append_right _ List.mem_cons_self
  exact dispatchedRecords_sublist (hpost hassume).1

end ExecutionCoordinator

/-! ## Two records in flight -/

/-- A filter in front of an enrichment stage that takes two records at a time. -/
def enrichChain : MiddlewareChain := [⟨"even_ids_only", .filter false, 1⟩, ⟨"enrich", .perRecord, 1⟩]

/-- The enrichment stage in the plan. -/
def enrichStage : BufferedStageSpec := ⟨1, "enrich", 2⟩

/-- The environment in which the filter lets only some records through and no future is done before
it is awaited. -/
def slowEnrichment (keep : ℕ → Bool) : Environment ℕ ℕ
  | _, .await (.predicate _ record) => .ok (keep record)
  | _, .await (.awaitFuture _) => .ok (.value (some 7))
  | _, .futureDone _ => false
  | t, o => undisturbed t o

/-- The lane over the records 2 and 3, with the default configuration. -/
def twoRecordsRun (keep : ℕ → Bool) :
    System.Config (Call ℕ ℕ) Call.Ret (Mark ℕ ℕ) (RunState (BufferedState ℕ ℕ) ℕ ℕ) Exc Unit :=
  (ExecutionCoordinator.standard (.standard true) enrichChain).bufferedRun 4 [enrichStage] 0
    [⟨2, some 20, []⟩, ⟨3, some 30, []⟩] (slowEnrichment keep) none (List.replicate 20 .main)

/-- With both records in flight at the same time they are handed over in source order. -/
theorem dispatchedRecords_inOrder_bothKept :
    prefixRejections (twoRecordsRun fun _ => true).world.trace = [] ∧
      (dispatchedRecords (twoRecordsRun fun _ => true).world.trace).Sublist
        [⟨2, some 20, []⟩, ⟨3, some 30, []⟩] :=
  ⟨by decide, ExecutionCoordinator.dispatchedRecords_inOrder _ 4 [enrichStage] 0 _
    (slowEnrichment fun _ => true) none (List.replicate 20 .main) (by decide)⟩

/-- The record 3 is dropped by the filter while the record 2 is pending: it is handed over first. -/
theorem not_dispatchedRecords_inOrder_secondDropped :
    ¬ (dispatchedRecords (twoRecordsRun (· == 2)).world.trace).Sublist
      [⟨2, some 20, []⟩, ⟨3, some 30, []⟩] := by
  intro h
  have hraw := h.map SourceRecord.raw
  have heq : (dispatchedRecords (twoRecordsRun (· == 2)).world.trace).map SourceRecord.raw =
      [3, 2] := by decide
  rw [heq] at hraw
  exact absurd hraw (by decide)

end AgoraEtl
