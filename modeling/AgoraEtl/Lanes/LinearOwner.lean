import AgoraEtl.Lanes.LinearAlone

/-!
# The linear lane beside the pending-write owner

With a flush interval the lane only appends to the pending writes, and the owner takes them and
delivers them.  `Feeds` is what the lane guarantees: whatever unsettled records the owner holds, they
and the pending writes behind them stay a queue that knows all accepted records.  `Drains` is what the
owner guarantees: it returns only when it was told to stop and has left no pending writes behind.
-/

namespace AgoraEtl

open Effect Program

variable {ℓ α χ β : Type}

/-- The owner has not been told to stop and has not returned; until it is created nothing is pending. -/
structure QueueState.Accepting (q : QueueState ℓ α χ) : Prop where
  running : ∀ o, q.pendingWriteOwner = some o → o.stop = false ∧ o.task ≠ .returned
  empty : q.pendingWriteOwner = none → q.pendingWrites = []
  uses : q.pendingWriteUsesOwner ≠ some false

/-- The owner exists and is open. -/
structure QueueState.Running (q : QueueState ℓ α χ) : Prop where
  owner : ∃ o, q.pendingWriteOwner = some o ∧ o.stop = false ∧ o.task ≠ .returned
  uses : q.pendingWriteUsesOwner ≠ some false

/-- A running queue accepts records. -/
theorem QueueState.Running.accepting {q : QueueState ℓ α χ} (h : q.Running) : q.Accepting := by
  obtain ⟨o, ho, hrunning⟩ := h.owner
  refine ⟨fun o' ho' => ?_, fun hnone => ?_, h.uses⟩
  · rw [ho] at ho'
    cases ho'
    exact hrunning
  · rw [ho] at hnone
    cases hnone

namespace DeliveryEngine

/-- What a lane does to the queue of the owner: it takes nothing out of it, and a queue of unsettled
records before the pending writes stays one. -/
structure Feeds (d : DeliveryEngine α χ) (w w' : RunWorld ℓ α χ) : Prop where
  grows : w.trace <+: w'.trace
  pending : ∀ front, d.Outstanding w.trace (front ++ checkpoints w.state.pendingWrites) →
    d.Outstanding w'.trace (front ++ checkpoints w'.state.pendingWrites)

/-- What the owner does: it takes no record in, takes the pending writes as a whole, and returns only
when it was told to stop and nothing is left. -/
structure Drains (w w' : RunWorld ℓ α χ) : Prop where
  advances : Advances w.trace w'.trace
  queue : w'.state.pendingWrites = w.state.pendingWrites ∨ w'.state.pendingWrites = []
  uses : w'.state.pendingWriteUsesOwner = w.state.pendingWriteUsesOwner
  created : w.state.pendingWriteOwner = none → w'.state.pendingWriteOwner = none
  owner : ∀ o, w.state.pendingWriteOwner = some o → ∃ o', w'.state.pendingWriteOwner = some o' ∧
    o'.stop = o.stop ∧ (o'.task = .returned →
      o.task = .returned ∨ o.stop = true ∧ w'.state.pendingWrites = [])

section Relations

variable {d : DeliveryEngine α χ} {w₁ w₂ w₃ : RunWorld ℓ α χ}

/-- Doing nothing feeds the owner nothing. -/
theorem Feeds.refl (w : RunWorld ℓ α χ) : d.Feeds w w := ⟨List.prefix_rfl, fun _ h => h⟩

/-- Feeding composes. -/
theorem Feeds.trans (h : d.Feeds w₁ w₂) (h' : d.Feeds w₂ w₃) : d.Feeds w₁ w₃ :=
  ⟨h.grows.trans h'.grows, fun front hp => h'.pending front (h.pending front hp)⟩

/-- A queue that is kept is fed nothing. -/
theorem Feeds.kept (h : d.Feeds w₁ w₂) (hkept : KeepsQueue w₂ w₃) : d.Feeds w₁ w₃ := by
  refine ⟨h.grows.trans hkept.grows, fun front hp => ?_⟩
  rw [hkept.pendingWrites]
  exact (h.pending front hp).mono hkept.grows hkept.accepted

/-- Nor is one with the same pending writes. -/
theorem Feeds.same (h : d.Feeds w₁ w₂) (htrace : w₃.trace = w₂.trace)
    (hwrites : w₃.state.pendingWrites = w₂.state.pendingWrites) : d.Feeds w₁ w₃ := by
  refine h.trans ⟨htrace ▸ List.prefix_rfl, fun front hpending => ?_⟩
  rwa [hwrites, htrace]

/-- Doing nothing drains nothing. -/
theorem Drains.refl (w : RunWorld ℓ α χ) : Drains w w :=
  ⟨.refl _, .inl rfl, rfl, id, fun o ho => ⟨o, ho, rfl, .inl⟩⟩

/-- Draining composes. -/
theorem Drains.trans (h : Drains w₁ w₂) (h' : Drains w₂ w₃) : Drains w₁ w₃ := by
  refine ⟨h.advances.trans h'.advances, ?_, h'.uses.trans h.uses,
    fun hnone => h'.created (h.created hnone), fun o ho => ?_⟩
  · rcases h'.queue with hsame | hnil
    · rw [hsame]
      exact h.queue
    · exact .inr hnil
  · obtain ⟨o₂, ho₂, hstop₂, hreturned₂⟩ := h.owner o ho
    obtain ⟨o₃, ho₃, hstop₃, hreturned₃⟩ := h'.owner o₂ ho₂
    refine ⟨o₃, ho₃, hstop₃.trans hstop₂, fun hreturned => ?_⟩
    rcases hreturned₃ hreturned with hearlier | ⟨hstop, hnil⟩
    · refine (hreturned₂ hearlier).imp_right fun hdrained => ⟨hdrained.1, ?_⟩
      rcases h'.queue with hsame | hnil
      · rw [hsame]
        exact hdrained.2
      · exact hnil
    · exact .inr ⟨hstop₂ ▸ hstop, hnil⟩

/-- A queue that is kept is not drained. -/
theorem Drains.kept (h : Drains w₁ w₂) (hqueue : w₃.state.queue = w₂.state.queue)
    (hadvances : Advances w₂.trace w₃.trace) : Drains w₁ w₃ := by
  have hwrites : w₃.state.pendingWrites = w₂.state.pendingWrites :=
    congrArg QueueState.pendingWrites hqueue
  have howner : w₃.state.pendingWriteOwner = w₂.state.pendingWriteOwner :=
    congrArg QueueState.pendingWriteOwner hqueue
  have huses : w₃.state.pendingWriteUsesOwner = w₂.state.pendingWriteUsesOwner :=
    congrArg QueueState.pendingWriteUsesOwner hqueue
  refine h.trans ⟨hadvances, .inl hwrites, huses, fun hnone => howner.trans hnone, fun o ho => ?_⟩
  exact ⟨o, howner.trans ho, rfl, .inl⟩

/-- The owner leaves an open queue open. -/
theorem Drains.accepting (h : Drains w₁ w₂) (haccepting : w₁.state.queue.Accepting) :
    w₂.state.queue.Accepting := by
  refine ⟨fun o' ho' => ?_, fun hnone => ?_, fun huses => haccepting.uses (h.uses.symm.trans huses)⟩
  · cases ho : w₁.state.pendingWriteOwner with
    | none =>
      have hnone : w₂.state.pendingWriteOwner = none := h.created ho
      exact absurd (hnone.symm.trans ho') (by simp)
    | some o =>
      obtain ⟨o₂, ho₂, hstop, hreturned⟩ := h.owner o ho
      obtain rfl : o₂ = o' := Option.some.inj (ho₂.symm.trans ho')
      obtain ⟨hgoing, hrunning⟩ := haccepting.running o ho
      refine ⟨hstop.trans hgoing, fun hended => ?_⟩
      rcases hreturned hended with hearlier | ⟨hstopped, -⟩
      · exact hrunning hearlier
      · exact absurd (hgoing.symm.trans hstopped) (by simp)
  · cases ho : w₁.state.pendingWriteOwner with
    | none =>
      have hempty : w₁.state.pendingWrites = [] := haccepting.empty ho
      rcases h.queue with hsame | hnil
      · exact hsame.trans hempty
      · exact hnil
    | some o =>
      obtain ⟨o₂, ho₂, -⟩ := h.owner o ho
      exact absurd (ho₂.symm.trans hnone) (by simp)

end Relations

/-- The agreement of a lane beside the owner. -/
def beside (ℓ : Type) (d : DeliveryEngine α χ) : Supervised ℓ α χ where
  rely := Drains
  guarantee := d.Feeds
  fed := fun w => w.state.queue.Accepting
  left := fun w => w.state.queue.Accepting
  rely_advances := fun _ _ hr => hr.advances
  rely_fed := fun _ _ hr hw => hr.accepting hw
  guarantee_refl := Feeds.refl
  guarantee_kept := fun _ _ _ hw hkept => hw.kept hkept
  fed_kept := fun _ _ hw hkept => hkept.queue ▸ hw
  left_of_fed := fun _ hw => hw

/-! ## The owner -/

section Owner

variable {d : DeliveryEngine α χ}
  {assume : RunTrace α χ → Event (Call α χ) Call.Ret (Mark α χ) → Prop} {w₀ w : RunWorld ℓ α χ}
  {Q : Unit → RunWorld ℓ α χ → RunWorld ℓ α χ → Prop} {E : Exc → RunWorld ℓ α χ → RunWorld ℓ α χ → Prop}

/-- The owner holds no records: the pending writes are the queue of unsettled records. -/
structure Idle (d : DeliveryEngine α χ) (w₀ w : RunWorld ℓ α χ) : Prop where
  drains : Drains w₀ w
  pending : d.Outstanding w.trace (checkpoints w.state.pendingWrites)

/-- A call leaves an idle owner idle. -/
theorem Idle.called {w₁ : RunWorld ℓ α χ} (h : d.Idle w₀ w) (hr : d.Feeds w w₁) (o : Call α χ)
    (r : o.Ret) : d.Idle w₁ (w₁.called o r) := by
  have hcalled := Advances.called w₁.trace o r
  exact ⟨(Drains.refl w₁).kept rfl hcalled,
    (hr.pending [] h.pending).mono hcalled.grows hcalled.accepted⟩

/-- An update of the owner's events that neither stops it nor lets it return. -/
theorem safe_modifyOwner_idle {f : PendingWriteOwner → PendingWriteOwner}
    (hstop : ∀ o, (f o).stop = o.stop) (htask : ∀ o, (f o).task = .returned → o.task = .returned)
    (hw : d.Idle w₀ w) (h : ∀ w', d.Idle w₀ w' → Q () w₀ w') :
    (modifyOwner f : Delivery ℓ α χ Unit).Safe (d.supervising assume d.Feeds Drains) Q E w₀ w := by
  refine h _ ⟨hw.drains.trans ⟨.refl _, .inl rfl, rfl, fun hnone => ?_, fun o ho => ?_⟩, hw.pending⟩
  · exact congrArg (Option.map f) hnone
  · exact ⟨f o, congrArg (Option.map f) ho, hstop o, fun hreturned => .inl (htask o hreturned)⟩

variable [DecidableEq α] [DecidableEq χ]

/-- The records that the owner has taken stay before the pending writes until they are settled. -/
theorem safe_flushBatch_beside {batch : List (PendingWrite α χ)} (hw₀ : Drains w₀ w)
    (hpending : d.Outstanding w.trace (checkpoints batch ++ checkpoints w.state.pendingWrites)) :
    (d.flushBatch batch : Delivery ℓ α χ Unit).Safe (d.supervising assume d.Feeds Drains)
      (fun _ w₀ w' => d.Idle w₀ w') (fun _ w₀ w' => Drains w₀ w') w₀ w := by
  have hflush : (d.flushBatch batch : Delivery ℓ α χ Unit).Safe (d.watching assume d.Feeds)
      (fun _ _ w' => w.trace <+: w'.trace ∧ AllSettled w'.trace (checkpoints batch))
      (fun _ _ _ => True) w₀ w :=
    safe_flushBatch_watching (fun _ _ hr => hr.grows) hpending.awaits.front
  refine (hflush.framed (D := d.supervising assume d.Feeds Drains) (J := fun w₀ w' => Drains w₀ w' ∧
    d.Outstanding w'.trace (checkpoints batch ++ checkpoints w'.state.pendingWrites))
    ?_ ?_ ?_ ?_ ?_ ?_ ?_ ?_ (d.within_flushBatch allowsEngine_not_takesIn.writes batch) ⟨hw₀, hpending⟩).mono
    (fun _ _ _ hw' => ⟨hw'.2.1, hw'.2.2.rest hw'.1.2⟩) fun _ _ _ hw' => hw'.2.1
  · exact fun _ _ hr => hr
  · exact fun _ _ _ _ => trivial
  · exact fun _ _ ha => ha
  · exact fun _ _ he => he
  · exact id
  · intro w₀ w₁ s hw₁ hs
    refine ⟨hw₁.1.kept hs (.refl _), ?_⟩
    rw [show (w₁.write s).state.pendingWrites = w₁.state.pendingWrites from
      congrArg QueueState.pendingWrites hs]
    exact hw₁.2
  · intro w₀ w₁ m hm hw₁
    have hmark := Advances.mark w₁.trace hm
    exact ⟨hw₁.1.kept rfl hmark, hw₁.2.mono hmark.grows hmark.accepted⟩
  · intro w₀ w₁ o _ hw₁
    refine ⟨hw₁.1, fun w₂ hr r => ?_⟩
    have hcalled := Advances.called w₂.trace o r
    exact ⟨(Drains.refl w₂).kept rfl hcalled,
      (hr.pending _ hw₁.2).mono hcalled.grows hcalled.accepted⟩

/-- A flush leaves the owner idle, or it fails having drained the queue. -/
theorem safe_ownerFlush_idle (hw : d.Idle w₀ w) :
    (d.ownerFlush : Delivery ℓ α χ Unit).Safe (d.supervising assume d.Feeds Drains)
      (fun _ w₀ w' => d.Idle w₀ w') (fun _ w₀ w' => Drains w₀ w') w₀ w := by
  have hflushed : ∀ {w₀ w' : RunWorld ℓ α χ}, d.Idle w₀ w' →
      (modifyOwner fun o => { o with flushed := true } : Delivery ℓ α χ Unit).Safe
        (d.supervising assume d.Feeds Drains) (fun _ w₀ w' => d.Idle w₀ w')
        (fun _ w₀ w' => Drains w₀ w') w₀ w' := fun hw' =>
    safe_modifyOwner_idle (fun _ => rfl) (fun _ h => h) hw' fun _ h => h
  unfold ownerFlush flushPendingWritesOnce
  rw [safe_bind, safe_bind, safe_read]
  split
  · exact hflushed hw
  · rw [safe_bind]
    refine safe_modify_of fun w₁ hstate htrace => ?_
    have hwrites : w₁.state.pendingWrites = [] := congrArg RunState.pendingWrites hstate
    have hdrains : Drains w w₁ := by
      have huses := (congrArg RunState.pendingWriteUsesOwner hstate).trans rfl
      refine ⟨htrace ▸ .refl _, .inr hwrites, huses,
        fun hnone => (congrArg RunState.pendingWriteOwner hstate).trans hnone, fun o ho => ?_⟩
      exact ⟨o, (congrArg RunState.pendingWriteOwner hstate).trans ho, rfl, .inl⟩
    refine (safe_flushBatch_beside (hw.drains.trans hdrains) ?_).mono (fun _ _ _ hw' => hflushed hw')
      fun _ _ _ he => he
    rw [hwrites, htrace]
    exact (List.append_nil (checkpoints w.state.pendingWrites)).symm ▸ hw.pending

/-- One round of the owner: it ends only when it was told to stop and nothing is left. -/
theorem safe_pendingWriteOwnerRound_idle (hw : d.Idle w₀ w) :
    (d.pendingWriteOwnerRound () : Delivery ℓ α χ (Unit ⊕ Unit)).Safe
      (d.supervising assume d.Feeds Drains)
      (fun r w₀ w' => d.Idle w₀ w' ∧ ∀ u, r = .inr u →
        ownerEvent PendingWriteOwner.stop w'.state = true ∧ w'.state.pendingWrites = [])
      (fun _ w₀ w' => Drains w₀ w') w₀ w := by
  have hflush : ∀ {w₀ w' : RunWorld ℓ α χ}, d.Idle w₀ w' →
      (do d.ownerFlush; pure (.inl ()) : Delivery ℓ α χ (Unit ⊕ Unit)).Safe
        (d.supervising assume d.Feeds Drains)
        (fun r w₀ w' => d.Idle w₀ w' ∧ ∀ u, r = .inr u →
          ownerEvent PendingWriteOwner.stop w'.state = true ∧ w'.state.pendingWrites = [])
        (fun _ w₀ w' => Drains w₀ w') w₀ w' := by
    intro w₀ w' hw'
    rw [safe_bind]
    exact (safe_ownerFlush_idle hw').mono (fun _ _ _ h => ⟨h, nofun⟩) fun _ _ _ he => he
  unfold pendingWriteOwnerRound
  rw [safe_bind, safe_read]
  split
  · rename_i hend
    rw [Bool.and_eq_true, List.isEmpty_iff] at hend
    exact ⟨hw, fun _ _ => hend⟩
  · split
    · exact hflush hw
    · unfold invoke
      rw [safe_bind, safe_attempt, safe_bind, safe_perform]
      refine ⟨hw.drains, fun w₁ hr answer _ _ => ⟨savesCovered_called _ rfl answer, ?_⟩⟩
      have hw₁ := hw.called hr _ answer
      cases answer with
      | error exc =>
        rw [safe_ofExcept]
        dsimp only
        rw [safe_bind]
        exact safe_modifyOwner_idle (fun _ => rfl) (fun _ h => h) hw₁ fun _ hw₂ => hw₂.drains
      | ok timedOut =>
        rw [safe_ofExcept]
        dsimp only
        rw [safe_bind]
        refine safe_modifyOwner_idle (fun _ => rfl) (fun _ h => h) hw₁ fun w₂ hw₂ => ?_
        rw [safe_bind, safe_ofExcept]
        dsimp only
        rw [safe_bind, safe_read]
        split
        · exact hflush hw₂
        · split
          · exact hflush hw₂
          · exact ⟨hw₂, nofun⟩

/-- The owner keeps its guarantee, and saves only what covers handled records. -/
theorem safe_runPendingWriteOwner_idle (fuel : ℕ) (hw : d.Idle w₀ w) :
    (d.runPendingWriteOwner fuel : Delivery ℓ α χ Unit).Safe (d.supervising assume d.Feeds Drains)
      (fun _ => Drains) (fun _ => Drains) w₀ w := by
  unfold runPendingWriteOwner
  rw [safe_bind, safe_attempt]
  have hround : (iterate d.pendingWriteOwnerRound fuel () : Delivery ℓ α χ Unit).Safe
      (d.supervising assume d.Feeds Drains)
      (fun _ w₀ w' => d.Idle w₀ w' ∧
        ownerEvent PendingWriteOwner.stop w'.state = true ∧ w'.state.pendingWrites = [])
      (fun _ w₀ w' => Drains w₀ w') w₀ w := by
    refine safe_iterate (I := fun _ w₀ w' => d.Idle w₀ w') trivial (fun _ w₀ w' hw' => ?_) fuel hw
    refine (safe_pendingWriteOwnerRound_idle hw').mono (fun r _ _ h => ?_) fun _ _ _ he => he
    cases r with
    | inl _ => exact h.1
    | inr u => exact ⟨h.1, h.2 u rfl⟩
  refine hround.mono (fun _ w₀ w' hw' => ?_) fun exc w₀ w' hw' => ?_
  · -- told to stop, with nothing left, the task returns
    obtain ⟨hidle, hstop, hnil⟩ := hw'
    refine hidle.drains.trans ⟨.refl _, .inl rfl, rfl, fun hnone => ?_, fun o ho => ?_⟩
    · exact congrArg (Option.map _) hnone
    · refine ⟨_, congrArg (Option.map _) ho, rfl, fun _ => .inr ⟨?_, hnil⟩⟩
      rw [ownerEvent, ho] at hstop
      exact hstop
  · have hraised : ∀ {s : RunState ℓ α χ} {f : PendingWriteOwner → PendingWriteOwner} {e : Exc},
        (∀ o, (f o).stop = o.stop) → (∀ o, (f o).task = .raised e) →
        s.pendingWriteOwner = w'.state.pendingWriteOwner.map f →
        s.pendingWrites = w'.state.pendingWrites →
        s.pendingWriteUsesOwner = w'.state.pendingWriteUsesOwner → Drains w₀ (w'.write s) := by
      intro s f e hstop htask howner hwrites huses
      refine hw'.trans ⟨.refl _, .inl hwrites, huses, fun hnone => ?_, fun o ho => ?_⟩
      · exact howner.trans (congrArg (Option.map f) hnone)
      · refine ⟨f o, howner.trans (congrArg (Option.map f) ho), hstop o, fun hreturned => ?_⟩
        exact absurd ((htask o).symm.trans hreturned) nofun
    have hmodified : ∀ e : Exc, Drains w₀ (w'.write { w'.state with
        pendingWriteError := some e
        pendingWriteOwner := w'.state.pendingWriteOwner.map fun o =>
          { o with flushed := true, task := .raised e } }) := fun e =>
      hraised (f := fun o => { o with flushed := true, task := .raised e }) (fun _ => rfl)
        (fun _ => rfl) rfl rfl rfl
    match exc with
    | .cancelled =>
      exact hraised (f := fun o => { o with task := .raised .cancelled }) (fun _ => rfl)
        (fun _ => rfl) rfl rfl rfl
    | .external e => exact hmodified _
    | .fenceLost m => exact hmodified _
    | .recordDelivery e => exact hmodified _
    | .checkpointSave e => exact hmodified _
    | .runtimeError m => exact hmodified _
    | .valueError m => exact hmodified _
    | .keyboardInterrupt => exact hmodified _

end Owner

/-! ## The lane -/

section Lane

variable {d : DeliveryEngine α χ}
  {assume : RunTrace α χ → Event (Call α χ) Call.Ret (Mark α χ) → Prop} {w₀ w : RunWorld ℓ α χ}
  {E : Exc → RunWorld ℓ α χ → RunWorld ℓ α χ → Prop}

/-- The owner runs, and the pending writes and the trace are as given. -/
structure Standing (writes : List (PendingWrite α χ)) (t : RunTrace α χ) (w : RunWorld ℓ α χ) :
    Prop where
  running : w.state.queue.Running
  writes_eq : w.state.pendingWrites = writes
  trace_eq : w.trace = t

variable {writes : List (PendingWrite α χ)} {t : RunTrace α χ}

/-- Where an owner is used, finding that out leaves it beside the lane. -/
theorem safe_pendingWriteUsesOwner_beside {C : Contract (Call α χ) Call.Ret (Mark α χ) (RunState ℓ α χ)}
    {writerBatchSize : ℕ} (huses : d.usesPendingWriteOwner writerBatchSize = true)
    (haccepting : w.state.queue.Accepting) {Q : Bool → RunWorld ℓ α χ → RunWorld ℓ α χ → Prop}
    (h : ∀ w', w'.state.queue.Accepting → w'.state.pendingWrites = w.state.pendingWrites →
      w'.trace = w.trace → Q true w₀ w') :
    (d.pendingWriteUsesOwner writerBatchSize).Safe C Q E w₀ w := by
  unfold pendingWriteUsesOwner
  rw [safe_bind, safe_read]
  cases hcached : w.state.pendingWriteUsesOwner with
  | some uses =>
    cases uses with
    | true => exact h w haccepting rfl rfl
    | false => exact absurd hcached haccepting.uses
  | none =>
    rw [safe_bind, huses]
    exact h _ ⟨haccepting.running, haccepting.empty, nofun⟩ rfl rfl

/-- The owner is created unless it exists. -/
theorem safe_ensurePendingWriteOwner_beside
    {C : Contract (Call α χ) Call.Ret (Mark α χ) (RunState ℓ α χ)} {writerBatchSize : ℕ}
    (huses : d.usesPendingWriteOwner writerBatchSize = true) (haccepting : w.state.queue.Accepting)
    {Q : Unit → RunWorld ℓ α χ → RunWorld ℓ α χ → Prop}
    (h : ∀ w', Standing w.state.pendingWrites w.trace w' → Q () w₀ w') :
    (d.ensurePendingWriteOwner writerBatchSize).Safe C Q E w₀ w := by
  unfold ensurePendingWriteOwner
  rw [safe_bind, safe_read, if_neg (by rw [huses]; exact nofun)]
  split
  · rename_i hsome
    obtain ⟨o, ho⟩ := Option.isSome_iff_exists.mp hsome
    exact h w ⟨⟨⟨o, ho, haccepting.running o ho⟩, haccepting.uses⟩, rfl, rfl⟩
  · exact h _ ⟨⟨⟨_, rfl, rfl, nofun⟩, haccepting.uses⟩, rfl, rfl⟩

/-- An update of the owner's events that leaves it running. -/
theorem safe_modifyOwner_standing {C : Contract (Call α χ) Call.Ret (Mark α χ) (RunState ℓ α χ)}
    {f : PendingWriteOwner → PendingWriteOwner} (hstop : ∀ o, (f o).stop = o.stop)
    (htask : ∀ o, (f o).task = o.task) (hw : Standing writes t w)
    {Q : Unit → RunWorld ℓ α χ → RunWorld ℓ α χ → Prop}
    (h : ∀ w', Standing writes t w' → Q () w₀ w') :
    (modifyOwner f : Delivery ℓ α χ Unit).Safe C Q E w₀ w := by
  obtain ⟨o, ho, hgoing, hrunning⟩ := hw.running.owner
  have howner := congrArg (Option.map f) ho
  exact h _ ⟨⟨⟨f o, howner, (hstop o).trans hgoing, by rwa [htask o]⟩, hw.running.uses⟩,
    hw.writes_eq, hw.trace_eq⟩

/-- The lane waits until the owner has made room, and stays between two records. -/
theorem safe_waitForPendingWriteCapacity_beside {done : List (SourceRecord α χ)}
    (fuel writerBatchSize : ℕ) (hw₀ : d.Feeds w₀ w) (hw : (d.beside ℓ).BetweenRecords d done w) :
    (waitForPendingWriteCapacity fuel writerBatchSize : Delivery ℓ α χ Unit).Safe
      (d.supervising assume Drains d.Feeds)
      (fun _ w₀ w' => d.Feeds w₀ w' ∧ (d.beside ℓ).BetweenRecords d done w')
      (fun _ w₀ w' => d.Feeds w₀ w' ∧ w'.state.queue.Accepting) w₀ w := by
  refine safe_iterate
    (I := fun _ w₀ w' => d.Feeds w₀ w' ∧ (d.beside ℓ).BetweenRecords d done w') trivial
    (fun _ w₀ w₁ hw₁ => ?_) fuel ⟨hw₀, hw⟩
  unfold pendingWriteCapacityRound
  rw [safe_bind, safe_read]
  split
  · cases w₁.state.pendingWriteError with
    | some exc => exact ⟨hw₁.1, hw₁.2.fed⟩
    | none =>
      dsimp only
      rw [safe_bind]
      exact ((d.beside ℓ).safe_resolving (fun _ _ h => h.rely) (fun _ _ h => h.kept)
        (within_resolveInvoke rfl) hw₁.1 hw₁.2).mono (fun _ _ _ h => h) fun _ _ _ h => ⟨h.1, h.2.fed⟩
  · exact hw₁

variable [DecidableEq α] [DecidableEq χ]

/-- A record that the chain passes on is appended to the pending writes at once. -/
theorem safe_acceptBeside {fuel writerBatchSize : ℕ}
    (huses : d.usesPendingWriteOwner writerBatchSize = true) {done : List (SourceRecord α χ)}
    {r : SourceRecord α χ} (value : α) (hw₀ : d.Feeds w₀ w) (hw : (d.beside ℓ).Taken d done r w) :
    (do
      note (.accepted r)
      d.queueSuccessRecord fuel value r.raw r.checkpoint writerBatchSize r.onSuccess :
      Delivery ℓ α χ Unit).Safe (d.supervising assume Drains d.Feeds)
      (fun _ w₀ w' => d.Feeds w₀ w' ∧ (d.beside ℓ).BetweenRecords d (done ++ [r]) w')
      (fun _ w₀ w' => d.Feeds w₀ w' ∧ w'.state.queue.Accepting) w₀ w := by
  obtain ⟨haccepting, hconsumed, hknown⟩ := hw
  rw [safe_bind, safe_note]
  refine fun _ => ⟨savesCovered_mark _ _, ?_⟩
  -- once the record is appended, the lane is between two records
  have happended : ∀ (item : PendingWrite α χ) {w' : RunWorld ℓ α χ}, item.checkpoint = r.checkpoint →
      Standing (w.state.pendingWrites ++ [item]) (w.mark (.accepted r)).trace w' →
      d.Feeds w₀ w' ∧ (d.beside ℓ).BetweenRecords d (done ++ [r]) w' := by
    intro item w' hitem hw'
    refine ⟨hw₀.trans ⟨?_, fun front hpending => ?_⟩, hw'.running.accepting, ?_, ?_⟩
    · rw [hw'.trace_eq]
      exact List.prefix_append _ _
    · rw [hw'.writes_eq, hw'.trace_eq, checkpoints, List.map_append, ← List.append_assoc]
      have haccept := hpending.accept hconsumed hknown
      rwa [← hitem] at haccept
    · rw [hw'.trace_eq]
      exact (consumedRecords_accepted _ _).trans hconsumed
    · rw [hw'.trace_eq]
      exact hknown.accept
  unfold queueSuccessRecord
  rw [safe_bind]
  refine safe_successHookFor fun hooks w₁ hqueue₁ htrace₁ => ?_
  have hwrites₁ : w₁.state.pendingWrites = w.state.pendingWrites :=
    congrArg QueueState.pendingWrites hqueue₁
  rw [safe_bind]
  refine safe_pendingWriteUsesOwner_beside huses (hqueue₁ ▸ haccepting)
    fun w₂ haccepting₂ hwrites₂ htrace₂ => ?_
  rw [if_pos rfl, safe_bind]
  refine safe_ensurePendingWriteOwner_beside huses haccepting₂ fun w₃ hw₃ => ?_
  rw [hwrites₂, hwrites₁, htrace₂, htrace₁] at hw₃
  rw [safe_bind]
  refine safe_modifyOwner_standing (f := fun o => { o with flushed := false }) (fun _ => rfl)
    (fun _ => rfl) hw₃ fun w₄ hw₄ => ?_
  unfold appendPendingWrite
  rw [safe_bind, safe_bind]
  refine safe_modify_of fun w₅ hstate₅ htrace₅ => ?_
  have hw₅ : Standing (w.state.pendingWrites ++ [⟨value, r.raw, r.checkpoint, hooks⟩])
      (w.mark (.accepted r)).trace w₅ := by
    have hqueue₅ := congrArg RunState.queue hstate₅
    refine ⟨⟨?_, ?_⟩, ?_, htrace₅.trans hw₄.trace_eq⟩
    · rw [hqueue₅]
      exact hw₄.running.owner
    · rw [hqueue₅]
      exact hw₄.running.uses
    · rw [show w₅.state.pendingWrites = _ from congrArg QueueState.pendingWrites hqueue₅]
      exact congrArg (· ++ [_]) hw₄.writes_eq
  rw [safe_bind, safe_read]
  refine (safe_ret _).mpr ?_
  rw [safe_bind]
  refine safe_modifyOwner_standing (f := fun o => { o with notify := true }) (fun _ => rfl)
    (fun _ => rfl) hw₅ fun w₆ hw₆ => ?_
  obtain ⟨hfeeds, hresting⟩ := happended _ rfl hw₆
  split
  · exact safe_waitForPendingWriteCapacity_beside fuel writerBatchSize hfeeds hresting
  · exact ⟨hfeeds, hresting⟩

/-- The lane has told the owner to stop; once the owner has returned nothing is left to flush. -/
theorem safe_flushPendingWrites_beside (hw₀ : d.Feeds w₀ w) (haccepting : w.state.queue.Accepting) :
    (d.flushPendingWrites : Delivery ℓ α χ Unit).Safe (d.supervising assume Drains d.Feeds)
      (fun _ => d.Feeds) (fun _ => d.Feeds) w₀ w := by
  have hflush : ∀ {w₀ w' : RunWorld ℓ α χ}, d.Feeds w₀ w' → w'.state.pendingWrites = [] →
      (d.flushPendingWritesOnce : Delivery ℓ α χ Unit).Safe (d.supervising assume Drains d.Feeds)
        (fun _ => d.Feeds) (fun _ => d.Feeds) w₀ w' := by
    intro w₀ w' hw' hnil
    unfold flushPendingWritesOnce
    rw [safe_bind, safe_read, if_pos (List.isEmpty_iff.mpr hnil)]
    exact hw'
  unfold flushPendingWrites closePendingWriteOwner
  rw [safe_bind, safe_bind, safe_read]
  split
  · rename_i hnone
    exact hflush hw₀ (haccepting.empty (Option.isNone_iff_eq_none.mp hnone))
  · rename_i hsome
    obtain ⟨o, ho⟩ : ∃ o, w.state.pendingWriteOwner = some o := by
      cases ho : w.state.pendingWriteOwner with
      | none => exact absurd (by rw [ho]; rfl) hsome
      | some o => exact ⟨o, rfl⟩
    obtain ⟨-, hrunning⟩ := haccepting.running o ho
    unfold modifyOwner invoke
    rw [safe_bind]
    refine safe_modify_of fun w₁ hstate₁ htrace₁ => ?_
    have hfeeds₁ : d.Feeds w₀ w₁ :=
      hw₀.same htrace₁ ((congrArg RunState.pendingWrites hstate₁).trans rfl)
    have howner₁ : w₁.state.pendingWriteOwner = some { o with stop := true, notify := true } :=
      (congrArg RunState.pendingWriteOwner hstate₁).trans (congrArg (Option.map _) ho)
    rw [safe_bind, safe_attempt, safe_bind, safe_perform]
    refine ⟨hfeeds₁, fun w₂ hr answer hready _ => ⟨savesCovered_called _ rfl answer, ?_⟩⟩
    have hcalled : d.Feeds w₂ (w₂.called (.await .joinOwner) answer) :=
      (Feeds.refl w₂).kept ⟨rfl, (Advances.called _ _ _).grows, (Advances.called _ _ _).accepted⟩
    cases answer with
    | error exc =>
      rw [safe_ofExcept]
      dsimp only
      rw [safe_bind, safe_read, safe_bind]
      refine safe_modify_of fun w₃ hstate₃ htrace₃ => ?_
      have hwrites₃ : w₃.state.pendingWrites = w₂.state.pendingWrites :=
        (congrArg RunState.pendingWrites hstate₃).trans rfl
      have hfeeds₃ : d.Feeds w₂ w₃ := hcalled.same htrace₃ hwrites₃
      cases (w₂.called (.await .joinOwner) (.error exc)).state.pendingWriteError with
      | some e => exact hfeeds₃
      | none => exact hfeeds₃
    | ok u =>
      rw [safe_ofExcept]
      dsimp only
      rw [safe_bind, safe_read, safe_bind]
      refine safe_modify_of fun w₃ hstate₃ htrace₃ => ?_
      have hwrites₃ : w₃.state.pendingWrites = w₂.state.pendingWrites :=
        (congrArg RunState.pendingWrites hstate₃).trans rfl
      have hfeeds₃ : d.Feeds w₂ w₃ := hcalled.same htrace₃ hwrites₃
      -- the owner has returned since it was told to stop, and has left nothing behind
      obtain ⟨o₂, ho₂, -, hreturned⟩ := hr.owner _ howner₁
      have hended : o₂.task = .returned := by
        have hanswer : (w₂.state.pendingWriteOwner.any fun o => o.task = .returned) = true := hready
        rw [ho₂] at hanswer
        exact of_decide_eq_true hanswer
      have hnil : w₂.state.pendingWrites = [] := by
        rcases hreturned hended with hearlier | ⟨-, hnil⟩
        · exact absurd hearlier hrunning
        · exact hnil
      cases (w₂.called (.await .joinOwner) (.ok u)).state.pendingWriteError with
      | some e => exact hfeeds₃
      | none => exact hflush hfeeds₃ (hwrites₃.trans hnil)

end Lane

end DeliveryEngine

end AgoraEtl
