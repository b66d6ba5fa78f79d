import AgoraEtl.Delivery.Coverage
import AgoraEtl.Lanes.Frame
import AgoraEtl.Lanes.Linear

/-!
# What the checkpoints of a linear lane cover

A linear lane takes the records of the source in turn; what the chain passes on waits in a queue
until it is written.  `Outstanding` says that the queue knows all accepted records that are not
settled, and is kept by every step of the lane; `Supervised` collects what the lane and the other task
rely on, so that the loop over the source is followed once for all places where the records may wait.
-/

namespace AgoraEtl

open Effect Program

variable {ℓ α χ β : Type}

/-! ## Records that wait -/

/-- The world has gone on, and neither the queue of pending writes nor the accepted records have
changed. -/
structure KeepsQueue (w w' : RunWorld ℓ α χ) : Prop where
  queue : w'.state.queue = w.state.queue
  grows : w.trace <+: w'.trace
  accepted : acceptedCheckpoints w'.trace = acceptedCheckpoints w.trace

/-- A kept queue has the same pending writes. -/
theorem KeepsQueue.pendingWrites {w w' : RunWorld ℓ α χ} (h : KeepsQueue w w') :
    w'.state.pendingWrites = w.state.pendingWrites := congrArg QueueState.pendingWrites h.queue

/-- It has the same owner. -/
theorem KeepsQueue.pendingWriteOwner {w w' : RunWorld ℓ α χ} (h : KeepsQueue w w') :
    w'.state.pendingWriteOwner = w.state.pendingWriteOwner :=
  congrArg QueueState.pendingWriteOwner h.queue

/-- The objects of the lane are the same. -/
theorem KeepsQueue.lane {w w' : RunWorld ℓ α χ} (h : KeepsQueue w w') : w'.state.lane = w.state.lane :=
  congrArg QueueState.lane h.queue

/-- Whether there is an owner is the same. -/
theorem KeepsQueue.pendingWriteUsesOwner {w w' : RunWorld ℓ α χ} (h : KeepsQueue w w') :
    w'.state.pendingWriteUsesOwner = w.state.pendingWriteUsesOwner :=
  congrArg QueueState.pendingWriteUsesOwner h.queue

/-- The checkpoints of the records of a queue. -/
abbrev checkpoints (queue : List (PendingWrite α χ)) : List (Option χ) :=
  queue.map PendingWrite.checkpoint

/-- Counting consumed records changes neither the queue nor the trace. -/
theorem safe_consume {C : Contract (Call α χ) Call.Ret (Mark α χ) (RunState ℓ α χ)} {n : ℕ}
    {Q : Unit → RunWorld ℓ α χ → RunWorld ℓ α χ → Prop}
    {E : Exc → RunWorld ℓ α χ → RunWorld ℓ α χ → Prop} {w₀ w : RunWorld ℓ α χ}
    (h : ∀ w', w'.state.queue = w.state.queue → w'.trace = w.trace → Q () w₀ w') :
    (consume n).Safe C Q E w₀ w := by
  unfold consume incConsumed hotFlush
  simp only [safe_bind, safe_modify, safe_read, pure_eq_ret, safe_ret]
  split
  · exact h _ rfl rfl
  · exact h _ rfl rfl

namespace DeliveryEngine

variable (d : DeliveryEngine α χ)

/-- The queue holds all accepted records that are not settled, and each of its records knows those
before it. -/
structure Outstanding (t : RunTrace α χ) (queue : List (Option χ)) : Prop where
  awaits : d.Awaits t queue
  accepted : ∀ c ∈ acceptedCheckpoints t, IsSettled t c ∨ c ∈ queue

/-- Every one of the records was accepted or is accounted for. -/
def Known (t : RunTrace α χ) (done : List (SourceRecord α χ)) : Prop :=
  ∀ r ∈ done, d.Accounts t r.checkpoint ∨ r.checkpoint ∈ acceptedCheckpoints t

variable {d} {t t' : RunTrace α χ} {queue : List (Option χ)} {done : List (SourceRecord α χ)}

/-- At the start nothing is outstanding. -/
theorem outstanding_nil : d.Outstanding ([] : RunTrace α χ) [] := ⟨awaits_nil _, nofun⟩

/-- What is outstanding stays so as long as no record is accepted. -/
theorem Outstanding.mono (h : d.Outstanding t queue) (hgrows : t <+: t')
    (haccepted : acceptedCheckpoints t' = acceptedCheckpoints t) : d.Outstanding t' queue where
  awaits := h.awaits.mono hgrows
  accepted := fun c hc => (h.accepted c (haccepted ▸ hc)).imp_left (·.mono hgrows)

/-- What is known of the records done stays known. -/
theorem Known.mono (h : d.Known t done) (hgrows : t <+: t')
    (haccepted : acceptedCheckpoints t' = acceptedCheckpoints t) : d.Known t' done :=
  fun r hr => (h r hr).imp (·.mono hgrows) fun hmem => haccepted ▸ hmem

/-- One more record is known if it is accounted for or accepted. -/
theorem Known.concat (h : d.Known t done) {r : SourceRecord α χ}
    (hr : d.Accounts t r.checkpoint ∨ r.checkpoint ∈ acceptedCheckpoints t) :
    d.Known t (done ++ [r]) := by
  intro r' hr'
  rcases List.mem_append.mp hr' with hr' | hr'
  · exact h r' hr'
  · rwa [List.mem_singleton.mp hr']

/-- Settled records leave the queue at its front. -/
theorem Outstanding.rest {front rest : List (Option χ)} (h : d.Outstanding t (front ++ rest))
    (hfront : AllSettled t front) : d.Outstanding t rest where
  awaits := h.awaits.rest (accounts_of_allSettled hfront)
  accepted := fun c hc => by
    rcases h.accepted c hc with hsettled | hmem
    · exact .inl hsettled
    · exact (List.mem_append.mp hmem).imp_left (hfront c)

/-- The mark of an accepted record adds its checkpoint. -/
theorem acceptedCheckpoints_mark (t : RunTrace α χ) (r : SourceRecord α χ) :
    acceptedCheckpoints (t ++ [.mark (.accepted r)]) = acceptedCheckpoints t ++ [r.checkpoint] := by
  simp [acceptedCheckpoints]

/-- It consumes nothing. -/
theorem consumedRecords_accepted (t : RunTrace α χ) (r : SourceRecord α χ) :
    consumedRecords (t ++ [.mark (.accepted r)]) = consumedRecords t := by
  simp [consumedRecords]

/-- The record taken last is accepted and joins the queue. -/
theorem Outstanding.accept (h : d.Outstanding t queue) {r : SourceRecord α χ}
    (hconsumed : consumedRecords t = done ++ [r]) (hknown : d.Known t done) :
    d.Outstanding (t ++ [.mark (.accepted r)]) (queue ++ [r.checkpoint]) := by
  have hgrows : t <+: t ++ [.mark (.accepted r)] := List.prefix_append _ _
  constructor
  · refine (h.awaits.mono hgrows).concat ((consumedRecords_accepted t r).trans hconsumed)
      fun r' hr' => ?_
    rcases hknown r' hr' with hdone | hmem
    · exact .inl (hdone.mono hgrows)
    · exact (h.accepted _ hmem).imp_left fun hsettled => accounts_of_settled (hsettled.mono hgrows)
  · intro c hc
    rw [acceptedCheckpoints_mark] at hc
    rcases List.mem_append.mp hc with hc | hc
    · exact (h.accepted c hc).imp (·.mono hgrows) (List.mem_append_left _)
    · exact .inr (List.mem_append_right _ hc)

/-- An accepted record is known. -/
theorem Known.accept {r : SourceRecord α χ} (h : d.Known t done) :
    d.Known (t ++ [.mark (.accepted r)]) (done ++ [r]) := by
  have haccepted := acceptedCheckpoints_mark t r
  refine Known.concat (fun r' hr' => ?_) (.inr (by rw [haccepted]; simp))
  refine (h r' hr').imp (·.mono (List.prefix_append _ _)) fun hmem => ?_
  rw [haccepted]
  exact List.mem_append_left _ hmem

/-! ## Lanes under supervision -/

variable (d)

/-- The contract of a lane that is watched: answers come when they can, and the lane shows a
guarantee. -/
def supervising (assume : RunTrace α χ → Event (Call α χ) Call.Ret (Mark α χ) → Prop)
    (rely guarantee : RunWorld ℓ α χ → RunWorld ℓ α χ → Prop) :
    Contract (Call α χ) Call.Ret (Mark α χ) (RunState ℓ α χ) where
  ready := fun s o r => ownerReady s o r = true
  assume := assume
  ensure := d.SavesCovered
  rely := rely
  guarantee := guarantee
  mayHang := True

/-- What a lane and the other task agree on: how the other task may act, what the lane guarantees, what
holds of the queue while records are taken, and what is still true of it once the lane has failed. -/
structure Supervised (ℓ : Type) (α χ : Type) where
  rely : RunWorld ℓ α χ → RunWorld ℓ α χ → Prop
  guarantee : RunWorld ℓ α χ → RunWorld ℓ α χ → Prop
  fed : RunWorld ℓ α χ → Prop
  left : RunWorld ℓ α χ → Prop
  rely_advances : ∀ w w', rely w w' → Advances w.trace w'.trace
  rely_fed : ∀ w w', rely w w' → fed w → fed w'
  guarantee_refl : ∀ w, guarantee w w
  guarantee_kept : ∀ w₀ w w', guarantee w₀ w → KeepsQueue w w' → guarantee w₀ w'
  fed_kept : ∀ w w', fed w → KeepsQueue w w' → fed w'
  left_of_fed : ∀ w, fed w → left w

namespace Supervised

variable {d} (S : Supervised ℓ α χ)
  {assume : RunTrace α χ → Event (Call α χ) Call.Ret (Mark α χ) → Prop}
  {w₀ w w' : RunWorld ℓ α χ} {Q : β → RunWorld ℓ α χ → RunWorld ℓ α χ → Prop}
  {E : Exc → RunWorld ℓ α χ → RunWorld ℓ α χ → Prop}

/-- The lane is between two records. -/
structure BetweenRecords (d : DeliveryEngine α χ) (done : List (SourceRecord α χ))
    (w : RunWorld ℓ α χ) : Prop where
  fed : S.fed w
  consumed : consumedRecords w.trace = done
  known : d.Known w.trace done

/-- The lane has taken a record. -/
structure Taken (d : DeliveryEngine α χ) (done : List (SourceRecord α χ)) (r : SourceRecord α χ)
    (w : RunWorld ℓ α χ) : Prop where
  fed : S.fed w
  consumed : consumedRecords w.trace = done ++ [r]
  known : d.Known w.trace done

variable {S} {done : List (SourceRecord α χ)} {r : SourceRecord α χ}

/-- Between records the queue may be kept. -/
theorem BetweenRecords.kept (h : S.BetweenRecords d done w) (hkept : KeepsQueue w w')
    (hadvances : Advances w.trace w'.trace) : S.BetweenRecords d done w' where
  fed := S.fed_kept _ _ h.fed hkept
  consumed := hadvances.consumed.trans h.consumed
  known := h.known.mono hadvances.grows hadvances.accepted

/-- Between records others may run. -/
theorem BetweenRecords.rely (h : S.BetweenRecords d done w) (hr : S.rely w w') :
    S.BetweenRecords d done w' where
  fed := S.rely_fed _ _ hr h.fed
  consumed := (S.rely_advances _ _ hr).consumed.trans h.consumed
  known := h.known.mono (S.rely_advances _ _ hr).grows (S.rely_advances _ _ hr).accepted

/-- With a record taken the queue may be kept. -/
theorem Taken.kept (h : S.Taken d done r w) (hkept : KeepsQueue w w')
    (hadvances : Advances w.trace w'.trace) : S.Taken d done r w' where
  fed := S.fed_kept _ _ h.fed hkept
  consumed := hadvances.consumed.trans h.consumed
  known := h.known.mono hadvances.grows hadvances.accepted

/-- With a record taken others may run. -/
theorem Taken.rely (h : S.Taken d done r w) (hr : S.rely w w') : S.Taken d done r w' where
  fed := S.rely_fed _ _ hr h.fed
  consumed := (S.rely_advances _ _ hr).consumed.trans h.consumed
  known := h.known.mono (S.rely_advances _ _ hr).grows (S.rely_advances _ _ hr).accepted

variable (S)

/-- A program of the delivery engine that is watched keeps what is quietly kept. -/
theorem safe_engine {K : RunWorld ℓ α χ → Prop} (hrely : ∀ w w', K w → S.rely w w' → K w')
    (hkept : ∀ w w', K w → KeepsQueue w w' → Advances w.trace w'.trace → K w')
    {p : Delivery ℓ α χ β} (hp : p.Within (deliveryFrame ℓ fun m => ¬ m.TakesIn))
    (hw₀ : S.guarantee w₀ w) (hw : K w) (h : p.Safe (d.watching assume S.rely) Q E w₀ w) :
    p.Safe (d.supervising assume S.rely S.guarantee)
      (fun a w₀ w' => Q a w₀ w' ∧ S.guarantee w₀ w' ∧ K w')
      (fun e w₀ w' => E e w₀ w' ∧ S.guarantee w₀ w' ∧ K w') w₀ w := by
  refine h.framed (J := fun w₀ w' => S.guarantee w₀ w' ∧ K w') ?_ ?_ ?_ ?_ ?_ ?_ ?_ ?_ hp ⟨hw₀, hw⟩
  · exact fun _ _ hr => hr
  · exact fun _ _ _ _ => trivial
  · exact fun _ _ ha => ha
  · exact fun _ _ he => he
  · exact id
  · intro w₀ w₁ s hw₁ hs
    have hwrite : KeepsQueue w₁ (w₁.write s) := ⟨hs, List.prefix_rfl, rfl⟩
    exact ⟨S.guarantee_kept _ _ _ hw₁.1 hwrite, hkept _ _ hw₁.2 hwrite (.refl _)⟩
  · intro w₀ w₁ m hm hw₁
    have hmark := Advances.mark w₁.trace hm
    have hkept' : KeepsQueue w₁ (w₁.mark m) := ⟨rfl, hmark.grows, hmark.accepted⟩
    exact ⟨S.guarantee_kept _ _ _ hw₁.1 hkept', hkept _ _ hw₁.2 hkept' hmark⟩
  · intro w₀ w₁ o _ hw₁
    refine ⟨hw₁.1, fun w₂ hr r => ?_⟩
    have hcalled := Advances.called w₂.trace o r
    have hkept' : KeepsQueue w₂ (w₂.called o r) := ⟨rfl, hcalled.grows, hcalled.accepted⟩
    exact ⟨S.guarantee_kept _ _ _ (S.guarantee_refl w₂) hkept',
      hkept _ _ (hrely _ _ hw₁.2 hr) hkept' hcalled⟩

/-- A program that saves nothing needs no watching. -/
theorem safe_resolving {K : RunWorld ℓ α χ → Prop} (hrely : ∀ w w', K w → S.rely w w' → K w')
    (hkept : ∀ w w', K w → KeepsQueue w w' → Advances w.trace w'.trace → K w')
    {p : Delivery ℓ α χ β} (hp : p.Within (resolveFrame ℓ fun m => ¬ m.TakesIn))
    (hw₀ : S.guarantee w₀ w) (hw : K w) :
    p.Safe (d.supervising assume S.rely S.guarantee) (fun _ w₀ w' => S.guarantee w₀ w' ∧ K w')
      (fun _ w₀ w' => S.guarantee w₀ w' ∧ K w') w₀ w :=
  (S.safe_engine hrely hkept (within_of_resolve hp) hw₀ hw
    (safe_watching_advances S.rely_advances hp)).mono (fun _ _ _ h => h.2) fun _ _ _ h => h.2

section Loop

variable [DecidableEq α] [DecidableEq χ]

omit [DecidableEq α] [DecidableEq χ] in
/-- The record that is taken next is the last one consumed. -/
theorem safe_takeRecord (hw₀ : S.guarantee w₀ w) (hw : S.BetweenRecords d done w) :
    (takeRecord r : Delivery ℓ α χ Unit).Safe (d.supervising assume S.rely S.guarantee)
      (fun _ w₀ w' => S.guarantee w₀ w' ∧ S.Taken d done r w') E w₀ w := by
  unfold takeRecord
  rw [safe_bind, safe_note]
  refine fun _ => ⟨savesCovered_mark _ _, ?_⟩
  rw [safe_bind]
  refine safe_consume fun w₁ hqueue htrace => ?_
  have hkept : KeepsQueue w w₁ :=
    ⟨hqueue, htrace ▸ List.prefix_append _ _, by rw [htrace]; simp [acceptedCheckpoints]⟩
  refine safe_modify_of fun w₂ hstate htrace₂ => ?_
  have hkept₂ : KeepsQueue w w₂ :=
    ⟨(congrArg RunState.queue hstate).trans hkept.queue, htrace₂ ▸ hkept.grows,
      htrace₂ ▸ hkept.accepted⟩
  refine ⟨S.guarantee_kept _ _ _ hw₀ hkept₂, S.fed_kept _ _ hw.fed hkept₂, ?_,
    hw.known.mono hkept₂.grows hkept₂.accepted⟩
  rw [htrace₂, htrace, World.mark_trace, consumedRecords_append, hw.consumed]
  rfl

variable (hassume : ∀ t, assume t (.mark (.dropping true)) → AllSettled t (acceptedCheckpoints t))

include hassume in
/-- One record of the source, given what is done with a value that the chain passes on. -/
theorem safe_record {chain : MiddlewareChain} {accept : α → Delivery ℓ α χ Unit}
    (haccept : ∀ value w₀ w, S.guarantee w₀ w → S.Taken d done r w →
      (accept value).Safe (d.supervising assume S.rely S.guarantee)
        (fun _ w₀ w' => S.guarantee w₀ w' ∧ S.BetweenRecords d (done ++ [r]) w')
        (fun _ w₀ w' => S.guarantee w₀ w' ∧ S.left w') w₀ w)
    (hw₀ : S.guarantee w₀ w) (hw : S.BetweenRecords d done w) :
    (do
      takeRecord r
      let outcome ← chain.processOutcome r.raw
      match outcome.1 with
      | none => d.dropRecord r.checkpoint outcome.2 r.onSuccess (some r.raw)
      | some value => accept value : Delivery ℓ α χ Unit).Safe
      (d.supervising assume S.rely S.guarantee)
      (fun _ w₀ w' => S.guarantee w₀ w' ∧ S.BetweenRecords d (done ++ [r]) w')
      (fun _ w₀ w' => S.guarantee w₀ w' ∧ S.left w') w₀ w := by
  rw [safe_bind]
  refine (S.safe_takeRecord hw₀ hw).mono (fun _ w₀ w₁ hw₁ => ?_) fun _ _ _ he => he
  have hchain : (chain.processOutcome r.raw : Delivery ℓ α χ _).Within
      (resolveFrame ℓ fun m => ¬ m.TakesIn) :=
    within_resolve_of_chain (MiddlewareChain.within_processStages _ _ _)
  rw [safe_bind]
  refine (S.safe_resolving (fun _ _ h => h.rely) (fun _ _ h => h.kept) hchain hw₁.1 hw₁.2).mono
    (fun outcome w₀ w₂ hw₂ => ?_) fun _ _ _ he => ⟨he.1, S.left_of_fed _ he.2.fed⟩
  cases outcome.1 with
  | some value => exact haccept value w₀ w₂ hw₂.1 hw₂.2
  | none =>
    refine (S.safe_engine (fun _ _ h => h.rely) (fun _ _ h => h.kept)
      (d.within_dropRecord allowsEngine_not_takesIn _ _ _ _) hw₂.1 hw₂.2
      (safe_dropRecord_watching S.rely_advances hassume hw₂.2.consumed hw₂.2.known
        outcome.2 r.onSuccess (some r.raw))).mono
      (fun _ _ w₃ hw₃ => ?_) fun _ _ _ he => ⟨he.2.1, S.left_of_fed _ he.2.2.fed⟩
    obtain ⟨haccounts, hguarantee, htaken⟩ := hw₃
    exact ⟨hguarantee, htaken.fed, htaken.consumed, htaken.known.concat (.inl haccounts)⟩

omit [DecidableEq α] [DecidableEq χ] in
/-- The loop over the source, and the error that it may have kept. -/
theorem safe_source {body : SourceRecord α χ → Delivery ℓ α χ Unit} {records : List (SourceRecord α χ)}
    (hbody : ∀ done r w₀ w, S.guarantee w₀ w → S.BetweenRecords d done w →
      (body r).Safe (d.supervising assume S.rely S.guarantee)
        (fun _ w₀ w' => S.guarantee w₀ w' ∧ S.BetweenRecords d (done ++ [r]) w')
        (fun _ w₀ w' => S.guarantee w₀ w' ∧ S.left w') w₀ w)
    (hw₀ : S.guarantee w₀ w) (hw : S.BetweenRecords d [] w) :
    (catchSourceError (forEach body records)).Safe (d.supervising assume S.rely S.guarantee)
      (fun _ w₀ w' => S.guarantee w₀ w' ∧ S.left w')
      (fun _ w₀ w' => S.guarantee w₀ w' ∧ S.left w') w₀ w := by
  unfold catchSourceError
  rw [safe_catchException, safe_bind]
  refine (safe_forEach (I := fun done w₀ w' => S.guarantee w₀ w' ∧ S.BetweenRecords d done w')
    (E := fun _ w₀ w' => S.guarantee w₀ w' ∧ S.left w') (fun done w₀ w₁ hw₁ => ?_)
    (fun done r rest w₀ w₁ _ hw₁ => hbody done r w₀ w₁ hw₁.1 hw₁.2) ⟨hw₀, hw⟩).mono
    (fun _ _ _ h => ⟨h.1, S.left_of_fed _ h.2.fed⟩) fun exc _ _ he => ?_
  · exact (S.safe_resolving (fun _ _ h => h.rely) (fun _ _ h => h.kept) (within_resolveInvoke rfl)
      hw₁.1 hw₁.2).mono (fun _ _ _ h => h) fun _ _ _ h => ⟨h.1, S.left_of_fed _ h.2.fed⟩
  · split
    · exact he
    · exact he

end Loop

end Supervised

end DeliveryEngine

end AgoraEtl
