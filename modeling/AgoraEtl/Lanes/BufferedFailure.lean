import AgoraEtl.Lanes.BufferedRule

/-!
# The buffered lane after a failed commit

When committing a record raises, the record has left the deque.  If the lane is draining after the end of
the stream, or the exception is one on which pending work is aborted, then the pending futures are
cancelled, no further record is handed to the delivery engine and the exception leaves the lane.  On any
other exception the streaming loop ends but the lane goes on to drain, so that later records are still
written and checkpointed.
-/

namespace AgoraEtl

open Effect Program

variable {α χ : Type}

/-- Committing a record raised: whether the lane was still streaming, the futures of the records that
were pending, and whether records were queued for the writer. -/
structure CommitFailure : Type where
  exc : Exc
  streaming : Bool
  pending : List (Option Future)
  queued : Bool
  deriving DecidableEq

/-- The lane has nothing to drain after the failure, or does not drain it. -/
def CommitFailure.Aborts (f : CommitFailure) : Prop :=
  f.streaming = true →
    mustAbortPendingWork f.exc = true ∨ (f.pending = [] ∧ f.queued = false)

instance (f : CommitFailure) : Decidable f.Aborts :=
  inferInstanceAs (Decidable (f.streaming = true → _))

/-- The failed commits of a run. -/
def commitFailures (t : RunTrace α χ) : List CommitFailure :=
  marked (fun
    | .commitRaised exc streaming pending queued => some ⟨exc, streaming, pending, queued⟩
    | _ => none) t

/-- The exception that interrupts an operation of the lane. -/
def interruption : Event (Call α χ) Call.Ret (Mark α χ) → Option Exc
  | .called (.await a) (.error e) => if a.isInterruptible then some e else none
  | _ => none

/-- The exceptions that interrupt the lane while the exception of a failed commit is on its way out. -/
def lateInterruptions (t : RunTrace α χ) : List Exc :=
  (t.dropWhile fun
    | .mark (.commitRaised _ _ _ _) => false
    | _ => true).filterMap interruption

/-- The lane aborts on each failed commit, and nothing interrupts it from then on. -/
def AbortsOnFailure (t : RunTrace α χ) (e : Event (Call α χ) Call.Ret (Mark α χ)) : Prop :=
  (∀ exc streaming pending queued, e = .mark (.commitRaised exc streaming pending queued) →
    CommitFailure.Aborts ⟨exc, streaming, pending, queued⟩) ∧
  (commitFailures t ≠ [] → interruption e = none)

/-- No record is handed over after a failed commit. -/
def QuietAfterCommit (t : RunTrace α χ) (e : Event (Call α χ) Call.Ret (Mark α χ)) : Prop :=
  commitFailures t = [] ∨ ∀ m, e = .mark m → m.Quiet

/-! ## The failures in a trace -/

theorem commitFailures_mark_of_ne {t : RunTrace α χ} {m : Mark α χ}
    (hm : ∀ exc streaming pending queued, m ≠ .commitRaised exc streaming pending queued) :
    commitFailures (t ++ [.mark m]) = commitFailures t := by
  cases m with
  | commitRaised exc streaming pending queued => exact absurd rfl (hm exc streaming pending queued)
  | _ => simp [commitFailures]

/-- A mark of another part of the program is no failed commit. -/
theorem commitFailures_quiet {t : RunTrace α χ} {m : Mark α χ} (hm : m.Quiet) :
    commitFailures (t ++ [.mark m]) = commitFailures t := by
  refine commitFailures_mark_of_ne fun exc streaming pending queued he => ?_
  rw [he] at hm
  cases hm

@[simp] theorem commitFailures_called (t : RunTrace α χ) (o : Call α χ) (r : o.Ret) :
    commitFailures (t ++ [.called o r]) = commitFailures t := by
  simp [commitFailures]

/-- Whatever follows a failed commit, the failure stays in the trace. -/
theorem commitFailures_ne_nil (t₁ t₂ : RunTrace α χ) (f : CommitFailure) :
    commitFailures (t₁ ++ .mark (.commitRaised f.exc f.streaming f.pending f.queued) :: t₂) ≠ [] := by
  simp [commitFailures]

/-- An event that comes after a failed commit is among those that count as late. -/
theorem interruption_mem_late {t₁ t₂ : RunTrace α χ} {e : Event (Call α χ) Call.Ret (Mark α χ)}
    {exc : Exc} (hfailed : commitFailures t₁ ≠ []) (he : interruption e = some exc) :
    exc ∈ lateInterruptions (t₁ ++ e :: t₂) := by
  unfold lateInterruptions
  refine List.mem_filterMap.mpr ⟨e, ?_, he⟩
  induction t₁ with
  | nil => exact absurd rfl hfailed
  | cons e' t₁ ih =>
    rw [List.cons_append, List.dropWhile_cons]
    cases e' with
    | called o r => exact ih hfailed
    | mark m =>
      cases m with
      | commitRaised exc streaming pending queued => simp
      | _ => exact ih hfailed

section Rule

variable [DecidableEq α] {c : ExecutionCoordinator α χ} {v : BufferedVariant α χ} {splitIndex : ℕ}

/-- No commit has failed, or the exception is that of the only failed commit and the pending records
are those it left behind. -/
def LeavesWith (e : Exc) (pending : List (PendingRecord α χ)) (t : RunTrace α χ) : Prop :=
  commitFailures t = [] ∨ ∃ t₁ streaming queued,
    t = t₁ ++ [.mark (.commitRaised e streaming (pending.map PendingRecord.future) queued)] ∧
      commitFailures t₁ = []

/-- The lane hands over no record once a commit has failed, and leaves with its exception. -/
def commitFailureRule (hv : v.Framed) (records : List (SourceRecord α χ)) :
    BufferedRule c v splitIndex records AbortsOnFailure QuietAfterCommit where
  inv := fun _ _ t => commitFailures t = []
  handing := fun _ _ _ _ t => commitFailures t = []
  raised := LeavesWith
  ensure_mark := by
    intro t m hm _
    right
    intro m' he
    cases he
    exact hm
  ensure_call := fun _ => .inr nofun
  inv_mark := fun hm h => (commitFailures_quiet hm).trans h
  inv_call := fun h => (commitFailures_called _ _ _).trans h
  raised_of_inv := .inl
  interrupted := by
    intro e e' pending t t' a hraised _ ha hassume
    rcases hraised with hnone | ⟨t₁, streaming, queued, rfl, -⟩
    · exact .inl hnone
    · -- the lane is not interrupted once a commit has failed
      have hfailed := commitFailures_ne_nil t₁ t'
        ⟨e, streaming, pending.map PendingRecord.future, queued⟩
      rw [List.append_assoc] at hassume
      have hnone := hassume.2 hfailed
      simp [interruption, ha] at hnone
  enter := by
    intro consumed record rest pending w₀ w _ hw
    refine (hv.safe_enterRecord (T := fun t => commitFailures t = []) ?_ ?_ ?_ ?_ hw).mono
      (fun r _ w' hw' => ?_) fun _ _ w' hw' => hw'
    · intro t m hm _
      right
      intro m' he
      cases he
      exact hm
    · exact fun _ _ _ _ => .inr nofun
    · exact fun _ _ hm h => (commitFailures_quiet hm).trans h
    · exact fun _ _ _ h => (commitFailures_called _ _ _).trans h
    · obtain ⟨hlane, hnone, -⟩ := hw'
      refine ⟨hlane, ?_⟩
      cases r with
      | inl outcome =>
        intro _
        constructor
        · exact .inl hnone
        · exact (commitFailures_mark_of_ne fun _ _ _ _ he => by cases he).trans hnone
      | inr entry => exact hnone
  collect := by
    intro consumed entry pending w₀ w hw
    refine hv.safe_collect (T := fun t => commitFailures t = []) ?_ ?_ ?_ ?_ hw
    · intro t m hm _
      right
      intro m' he
      cases he
      exact hm
    · exact fun _ _ _ _ => .inr nofun
    · exact fun _ _ hm h => (commitFailures_quiet hm).trans h
    · exact fun _ _ _ h => (commitFailures_called _ _ _).trans h
  dispatch := by
    intro consumed pending record outcome t hnone _
    constructor
    · exact .inl hnone
    · exact (commitFailures_mark_of_ne fun _ _ _ _ he => by cases he).trans hnone
  commitFailed := by
    intro consumed e streaming queued b t hnone hassume
    refine ⟨.inl hnone, .inr ⟨t, streaming, queued, rfl, hnone⟩, fun hstreaming hkeeps => .inr ?_⟩
    rcases hassume.1 _ _ _ _ rfl hstreaming with habort | ⟨hpending, hqueued⟩
    · rw [hkeeps] at habort
      cases habort
    · exact ⟨List.map_eq_nil_iff.mp hpending, hqueued⟩

end Rule

/-- A stretch without failed commits ends before the first one. -/
theorem nil_of_before_failure {t s s' t' : RunTrace α χ} {f : CommitFailure}
    (hnone : commitFailures (t ++ s) = [])
    (h : s ++ s' = .mark (.commitRaised f.exc f.streaming f.pending f.queued) :: t') : s = [] := by
  cases s with
  | nil => rfl
  | cons e s =>
    rw [List.cons_append] at h
    injection h with hhead _
    rw [hhead] at hnone
    exact absurd hnone (commitFailures_ne_nil t s f)

/-- The first failed commit of a trace is determined by the trace. -/
theorem first_failure_unique {t₁ t₁' t₂ t₂' : RunTrace α χ} {f : CommitFailure} {exc : Exc}
    {streaming queued : Bool} {pending : List (Option Future)}
    (hnone : commitFailures t₁ = []) (hnone' : commitFailures t₁' = [])
    (h : t₁ ++ .mark (.commitRaised f.exc f.streaming f.pending f.queued) :: t₂ =
      t₁' ++ .mark (.commitRaised exc streaming pending queued) :: t₂') :
    f = ⟨exc, streaming, pending, queued⟩ ∧ t₂ = t₂' := by
  have hevents : (.mark (.commitRaised f.exc f.streaming f.pending f.queued) :: t₂ : RunTrace α χ) =
      .mark (.commitRaised exc streaming pending queued) :: t₂' := by
    rcases List.append_eq_append_iff.mp h with ⟨s, rfl, hs⟩ | ⟨s, rfl, hs⟩
    · obtain rfl := nil_of_before_failure hnone' hs.symm
      exact hs
    · obtain rfl := nil_of_before_failure (f := ⟨exc, streaming, pending, queued⟩) hnone hs.symm
      exact hs.symm
  injection hevents with hhead htail
  cases f
  cases hhead
  exact ⟨rfl, htail⟩

/-! ## Runs of the lane -/

/-- The exception has left the lane: either no commit failed, or it is that of the only failed commit
and the futures it left behind have been dealt with. -/
def Leaves (e : Exc) (t : RunTrace α χ) : Prop :=
  commitFailures t = [] ∨ ∃ t₁ streaming pending queued t₂,
    t = t₁ ++ .mark (.commitRaised e streaming pending queued) :: t₂ ∧ commitFailures t₁ = [] ∧
      ∀ f, some f ∈ pending → Dealt f t₂

theorem commitFailures_append_quiet {t₁ t₂ : RunTrace α χ} (h : Quiet t₂) :
    commitFailures (t₁ ++ t₂) = commitFailures t₁ := by
  have hnone : commitFailures t₂ = [] := by
    refine List.eq_nil_iff_forall_not_mem.mpr fun f hf => ?_
    obtain ⟨m, hm, hf⟩ := mem_marked _ |>.mp hf
    have hquiet := h m hm
    cases m <;> cases hf
    cases hquiet
  unfold commitFailures at hnone ⊢
  rw [marked_append, hnone, List.append_nil]

/-- The events of the pending-write owner hand nothing over. -/
theorem quiet_of_delivery {t : RunTrace α χ} (h : ∀ m, .mark m ∈ t → m.IsDelivery) : Quiet t :=
  fun m hm => allowsEngine_quiet.of_isDelivery (h m hm)

/-- What happens in the background changes nothing about the way the lane has ended. -/
theorem Leaves.append {e : Exc} {t t' : RunTrace α χ} (h : Leaves e t) (ht' : Quiet t') :
    Leaves e (t ++ t') := by
  rcases h with hnone | ⟨t₁, streaming, pending, queued, t₂, rfl, hnone, hdealt⟩
  · exact .inl ((commitFailures_append_quiet ht').trans hnone)
  · refine .inr ⟨t₁, streaming, pending, queued, t₂ ++ t', ?_, hnone, fun f hf => ?_⟩
    · rw [List.append_assoc, List.cons_append]
    · exact (hdealt f hf).append t'

/-- A lane that ends under the rule leaves with the exception of the failed commit. -/
theorem leaves_of_ended [DecidableEq α] {c : ExecutionCoordinator α χ} {v : BufferedVariant α χ}
    {splitIndex : ℕ} {records : List (SourceRecord α χ)} (hv : v.Framed) {e : Exc}
    {t : RunTrace α χ}
    (h : BufferedRule.Ended
      (commitFailureRule hv records : BufferedRule c v splitIndex records _ _) e t) : Leaves e t := by
  obtain ⟨pending, t₁, t₂, rfl, hraised, hquiet, hdone⟩ := h
  rcases hraised with hnone | ⟨t₀, streaming, queued, rfl, hnone⟩
  · exact .inl ((commitFailures_append_quiet hquiet).trans hnone)
  · refine .inr ⟨t₀, streaming, pending.map PendingRecord.future, queued, t₂, ?_, hnone, ?_⟩
    · rw [List.append_assoc, List.singleton_append]
    · intro f hf
      exact hdone f (List.mem_filterMap.mpr ⟨some f, hf, rfl⟩)

namespace ExecutionCoordinator

variable [DecidableEq α] [DecidableEq χ] (c : ExecutionCoordinator α χ)

/-- The buffered lane keeps the rule of failed commits, in both variants. -/
theorem safe_runBufferedLane_failure (fuel : ℕ) (stages : List BufferedStageSpec)
    (currentLimit : ℕ) (records : List (SourceRecord α χ)) (lastSaved : Option χ) :
    (c.runBufferedLane fuel stages currentLimit records).Safe
      (laneContract AbortsOnFailure QuietAfterCommit)
      (fun _ _ w' => commitFailures w'.trace = []) (fun e _ w' => Leaves e w'.trace)
      ⟨RunState.initial ⟨[], 0⟩ lastSaved, []⟩ ⟨RunState.initial ⟨[], 0⟩ lastSaved, []⟩ := by
  have hstart : ∀ t : RunTrace α χ, t = [] → commitFailures t = [] := by
    rintro t rfl
    rfl
  have hvariant : ∀ {first : BufferedStageSpec} {v : BufferedVariant α χ}, v.Framed →
      ∀ w₀ w : RunWorld (BufferedState α χ) α χ, w.state.lane.pendingRecords = [] →
      w.trace = [] → (c.runBuffered v fuel first.index records).Safe
        (laneContract AbortsOnFailure QuietAfterCommit)
        (fun _ _ w' => commitFailures w'.trace = []) (fun e _ w' => Leaves e w'.trace) w₀ w := by
    intro first v hv w₀ w hpending htrace
    let rule : BufferedRule c v first.index records AbortsOnFailure QuietAfterCommit :=
      commitFailureRule hv records
    have hinv : rule.inv [] [] w.trace := hstart _ htrace
    exact (rule.safe_runBuffered hpending hinv).mono (fun _ _ _ h => h)
      fun _ _ _ h => leaves_of_ended hv h
  refine c.safe_runBufferedLane rfl (fun _ => .inl rfl) (fun first _ w hpending htrace => ?_)
    fun first _ _ _ w hpending htrace => ?_
  · exact hvariant (c.framed_singleVariant first) _ w hpending htrace
  · exact hvariant (c.framed_multiVariant first) _ w hpending htrace

omit [DecidableEq α] [DecidableEq χ] in
/-- A run in which the lane aborts on each failed commit and is not interrupted afterwards. -/
theorem along_abortsOnFailure {t : RunTrace α χ} (haborts : ∀ f ∈ commitFailures t, f.Aborts)
    (hcalm : lateInterruptions t = []) : Along AbortsOnFailure [] t := by
  refine along_iff.mpr fun t₁ e t₂ htrace => ?_
  constructor
  · intro exc streaming pending queued he
    refine haborts _ ((mem_marked _).mpr ⟨.commitRaised exc streaming pending queued, ?_, rfl⟩)
    rw [htrace, he]
    exact List.mem_append_right _ List.mem_cons_self
  · intro hlate
    by_contra hinterrupted
    obtain ⟨exc, he⟩ := Option.ne_none_iff_exists'.mp hinterrupted
    rw [List.nil_append] at hlate
    have hmem : exc ∈ lateInterruptions (t₁ ++ e :: t₂) := interruption_mem_late hlate he
    rw [← htrace, hcalm] at hmem
    cases hmem

/-- In every run in which the lane aborts on each failed commit and is not interrupted while it does, no
record is handed over after a failed commit, the futures of the records that were pending are done or
cancelled when the lane has ended, and the exception of that commit is what it raises. -/
theorem runBufferedLane_aborts (fuel : ℕ) (stages : List BufferedStageSpec) (currentLimit : ℕ)
    (records : List (SourceRecord α χ)) (h : Environment α χ) (lastSaved : Option χ)
    (turns : List Turn)
    {run : System.Config (Call α χ) Call.Ret (Mark α χ) (RunState (BufferedState α χ) α χ) Exc Unit}
    (hrun : c.bufferedRun fuel stages currentLimit records h lastSaved turns = run)
    (haborts : ∀ f ∈ commitFailures run.world.trace, f.Aborts)
    (hcalm : lateInterruptions run.world.trace = []) (t₁ t₂ : RunTrace α χ) (f : CommitFailure)
    (hfailed : run.world.trace =
      t₁ ++ .mark (.commitRaised f.exc f.streaming f.pending f.queued) :: t₂) :
    Quiet t₂ ∧ ∀ r, run.main = .ended r → run.hung = false →
      r = .raised f.exc ∧ ∀ future, some future ∈ f.pending → Dealt future t₂ := by
  have hmark : ∀ t (m : Mark α χ), m.IsDelivery → AbortsOnFailure t (.mark m) →
      QuietAfterCommit t (.mark m) := by
    intro t m hm _
    right
    intro m' he
    cases he
    exact allowsEngine_quiet.of_isDelivery hm
  have hcall : ∀ t (o : Call α χ) r, AbortsOnFailure t (.called o r) →
      QuietAfterCommit t (.called o r) := fun _ _ _ _ => .inr nofun
  have hsafe := c.safe_runBufferedLane_failure fuel stages currentLimit records lastSaved
  obtain ⟨t, ht, hpost⟩ := c.delivery.withOwner_sound hmark hcall hsafe h turns hrun
  rw [List.nil_append] at ht
  subst ht
  obtain ⟨hensure, hreturned, hraised⟩ := hpost (along_abortsOnFailure haborts hcalm)
  have hfirst : commitFailures t₁ = [] := by
    have hlast := along_iff.mp hensure t₁ _ t₂ hfailed
    rcases hlast with hnone | hlast
    · exact hnone
    · cases hlast _ rfl
  have hquiet : Quiet t₂ := by
    intro m hm
    obtain ⟨t₃, t₄, rfl⟩ := List.append_of_mem hm
    have hlast := along_iff.mp hensure
      (t₁ ++ .mark (.commitRaised f.exc f.streaming f.pending f.queued) :: t₃) (.mark m) t₄
      (by rw [hfailed, List.append_assoc, List.cons_append])
    rw [List.nil_append] at hlast
    exact hlast.resolve_left (commitFailures_ne_nil t₁ t₃ f) m rfl
  refine ⟨hquiet, fun r hended hhung => ?_⟩
  cases r with
  | returned u =>
    obtain ⟨_, w, hnone, hback⟩ := hreturned u hended hhung
    obtain ⟨t, ht, hdelivery⟩ := hback.trace
    have hnone' : commitFailures run.world.trace = [] := by
      rw [ht]
      exact (commitFailures_append_quiet (quiet_of_delivery hdelivery)).trans hnone
    rw [hfailed] at hnone'
    exact absurd hnone' (commitFailures_ne_nil t₁ t₂ f)
  | raised e =>
    obtain ⟨_, w, hleaves, hback⟩ := hraised e hended hhung
    obtain ⟨t, ht, hdelivery⟩ := hback.trace
    have hleft : Leaves e run.world.trace := by
      rw [ht]
      exact hleaves.append (quiet_of_delivery hdelivery)
    rw [hfailed] at hleft
    rcases hleft with hnone | ⟨t₃, streaming, pending, queued, t₄, htrace, hnone, hdealt⟩
    · exact absurd hnone (commitFailures_ne_nil t₁ t₂ f)
    · obtain ⟨rfl, rfl⟩ := first_failure_unique hfirst hnone
        htrace
      exact ⟨rfl, hdealt⟩
  | hung =>
    rw [System.Config.hung, hended] at hhung
    cases hhung

end ExecutionCoordinator

/-! ## A failing success hook -/

/-- What the success hook raises. -/
def hookError : Exc := .external ⟨"OSError", "hook failed", .osError, none, none, none⟩

/-- The success hook 5 raises, and no future is done before it is awaited. -/
def failingHook : Environment ℕ ℕ
  | _, .await (.submit _ record) => .ok record
  | _, .await (.awaitFuture record) => .ok (.value (some record))
  | _, .await (.successHook 5) => .error hookError
  | _, .futureDone _ => false
  | t, o => undisturbed t o

/-- The lane over two records, the first of which has the failing hook, with the default
configuration. -/
def hookRun (concurrency : ℕ) :
    System.Config (Call ℕ ℕ) Call.Ret (Mark ℕ ℕ) (RunState (BufferedState ℕ ℕ) ℕ ℕ) Exc Unit :=
  (ExecutionCoordinator.standard (.standard true) [⟨"enrich", .perRecord, 1⟩]).bufferedRun 4
    [⟨0, "enrich", concurrency⟩] 0 [⟨1, some 10, [5]⟩, ⟨2, some 20, []⟩] failingHook none
    (List.replicate 40 .main)

set_option maxRecDepth 4000 in
/-- With room for three records the first one is committed while the lane drains: the second one is
cancelled. -/
theorem runBufferedLane_aborts_draining :
    Quiet ((hookRun 3).world.trace.drop 16) ∧ Dealt 2 ((hookRun 3).world.trace.drop 16) := by
  have haborts := ExecutionCoordinator.runBufferedLane_aborts
    (ExecutionCoordinator.standard (.standard true) [⟨"enrich", .perRecord, 1⟩]) 4
    [⟨0, "enrich", 3⟩] 0 [⟨1, some 10, [5]⟩, ⟨2, some 20, []⟩] failingHook none
    (List.replicate 40 .main) (show _ = hookRun 3 from rfl) (by decide) (by decide)
    ((hookRun 3).world.trace.take 15) ((hookRun 3).world.trace.drop 16)
    ⟨hookError, false, [some 2], false⟩ rfl
  exact ⟨haborts.1, (haborts.2 (.raised hookError) rfl rfl).2 2 List.mem_cons_self⟩

set_option maxRecDepth 4000 in
/-- With room for two records the first one is committed in the streaming loop: the second one is
handed over after the failure. -/
theorem not_runBufferedLane_aborts_streaming :
    ¬ ∀ t₁ t₂ (f : CommitFailure), (hookRun 2).world.trace =
      t₁ ++ .mark (.commitRaised f.exc f.streaming f.pending f.queued) :: t₂ → Quiet t₂ := by
  intro h
  have hcut : (hookRun 2).world.trace = (hookRun 2).world.trace.take 11 ++
      .mark (.commitRaised hookError true [some 2] false) :: (hookRun 2).world.trace.drop 12 := by
    rfl
  have hquiet := h ((hookRun 2).world.trace.take 11) ((hookRun 2).world.trace.drop 12)
    ⟨hookError, true, [some 2], false⟩ hcut
  have hlater : .mark (.dispatched ⟨2, some 20, []⟩ (some 2) none) ∈
      (hookRun 2).world.trace.drop 12 :=
    List.mem_of_getElem? (i := 5) rfl
  cases hquiet _ hlater

end AgoraEtl
