import AgoraEtl.Lanes.LinearCoverage

/-!
# The linear lane without the pending-write owner

Where no flush interval is configured the lane runs alone: what a batched writer collects waits in the
pending writes, in the buffer of the acceleration module, or in one behind the other.  Every delivery
settles the records of this queue from its front.
-/

namespace AgoraEtl

open Effect Program

variable {ℓ α χ β : Type}

/-- There is no pending-write owner, and none will be created. -/
structure QueueState.Alone (q : QueueState ℓ α χ) : Prop where
  owner : q.pendingWriteOwner = none
  uses : q.pendingWriteUsesOwner ≠ some true

namespace DeliveryEngine

variable {d : DeliveryEngine α χ}

/-- The agreement of a lane that runs alone: the records wait where `waiting` says, and the queue keeps
the shape. -/
def alone (d : DeliveryEngine α χ) (waiting : QueueState ℓ α χ → List (PendingWrite α χ))
    (shape : QueueState ℓ α χ → Prop) : Supervised ℓ α χ where
  rely := Eq
  guarantee := fun w w' =>
    w.state.pendingWriteOwner.isSome = false → w'.state.pendingWriteOwner.isSome = false
  fed := fun w => (w.state.queue.Alone ∧ shape w.state.queue) ∧
    d.Outstanding w.trace (checkpoints (waiting w.state.queue))
  left := fun w => (w.state.queue.Alone ∧ shape w.state.queue) ∧
    d.Awaits w.trace (checkpoints (waiting w.state.queue))
  rely_advances := fun _ _ hr => hr ▸ .refl _
  rely_fed := fun _ _ hr hw => hr ▸ hw
  guarantee_refl := fun _ hw => hw
  guarantee_kept := fun _ w w' hw hkept hnone => by
    rw [hkept.pendingWriteOwner]
    exact hw hnone
  fed_kept := fun w w' hw hkept => by
    rw [hkept.queue]
    exact ⟨hw.1, hw.2.mono hkept.grows hkept.accepted⟩
  left_of_fed := fun _ hw => ⟨hw.1, hw.2.awaits⟩

/-- What has become of a queue of unsettled records: its front is settled, and the rest is left in the
pending writes. -/
structure FrontSettled (lane : ℓ) (t : RunTrace α χ) (queue : List (Option χ)) (w : RunWorld ℓ α χ) :
    Prop where
  lane_eq : w.state.lane = lane
  alone : w.state.queue.Alone
  advances : Advances t w.trace
  drained : ∃ front, queue = front ++ checkpoints w.state.pendingWrites ∧ AllSettled w.trace front

/-- A delivery has failed, and no pending writes are left. -/
structure NothingLeft (lane : ℓ) (t : RunTrace α χ) (w : RunWorld ℓ α χ) : Prop where
  lane_eq : w.state.lane = lane
  alone : w.state.queue.Alone
  advances : Advances t w.trace
  nothing : w.state.pendingWrites = []

section Deliveries

variable {lane : ℓ} {t : RunTrace α χ} {queue rest : List (Option χ)} {w w' : RunWorld ℓ α χ}

/-- What is left of a queue after a delivery, with what waits behind it. -/
theorem FrontSettled.pending (h : FrontSettled lane t queue w) (ht : d.Outstanding t (queue ++ rest)) :
    d.Outstanding w.trace (checkpoints w.state.pendingWrites ++ rest) := by
  obtain ⟨front, rfl, hfront⟩ := h.drained
  rw [List.append_assoc] at ht
  exact (ht.mono h.advances.grows h.advances.accepted).rest hfront

theorem FrontSettled.awaits (h : FrontSettled lane t queue w) (ht : d.Awaits t (queue ++ rest)) :
    d.Awaits w.trace (checkpoints w.state.pendingWrites ++ rest) := by
  obtain ⟨front, rfl, hfront⟩ := h.drained
  rw [List.append_assoc] at ht
  exact (ht.mono h.advances.grows).rest (accounts_of_allSettled hfront)

theorem FrontSettled.trans (h : FrontSettled lane t queue w)
    (h' : FrontSettled lane w.trace (checkpoints w.state.pendingWrites ++ rest) w') :
    FrontSettled lane t (queue ++ rest) w' := by
  obtain ⟨front, rfl, hfront⟩ := h.drained
  obtain ⟨front', hrest, hfront'⟩ := h'.drained
  refine ⟨h'.lane_eq, h'.alone, h.advances.trans h'.advances, front ++ front', ?_, fun c hc => ?_⟩
  · rw [List.append_assoc, hrest, List.append_assoc]
  · rcases List.mem_append.mp hc with hc | hc
    · exact (hfront c hc).mono h'.advances.grows
    · exact hfront' c hc

theorem NothingLeft.after (h : FrontSettled lane t queue w) (h' : NothingLeft lane w.trace w') :
    NothingLeft lane t w' :=
  ⟨h'.lane_eq, h'.alone, h.advances.trans h'.advances, h'.nothing⟩

/-- Nothing waits any more. -/
theorem NothingLeft.awaits (h : NothingLeft lane t w) :
    d.Awaits w.trace (checkpoints w.state.pendingWrites) := by
  rw [h.nothing]
  exact awaits_nil _

end Deliveries

section Flush

variable [DecidableEq α] [DecidableEq χ]
  {waiting : QueueState ℓ α χ → List (PendingWrite α χ)} {shape : QueueState ℓ α χ → Prop}
  {assume : RunTrace α χ → Event (Call α χ) Call.Ret (Mark α χ) → Prop} {w₀ w : RunWorld ℓ α χ}
  {Q : β → RunWorld ℓ α χ → RunWorld ℓ α χ → Prop} {E : Exc → RunWorld ℓ α χ → RunWorld ℓ α χ → Prop}

/-- The contract of a lane that runs alone. -/
abbrev aloneContract (d : DeliveryEngine α χ)
    (assume : RunTrace α χ → Event (Call α χ) Call.Ret (Mark α χ) → Prop) :
    Contract (Call α χ) Call.Ret (Mark α χ) (RunState ℓ α χ) :=
  d.supervising assume Eq fun w w' =>
    w.state.pendingWriteOwner.isSome = false → w'.state.pendingWriteOwner.isSome = false

omit [DecidableEq α] [DecidableEq χ] in
/-- A program of the delivery engine that runs alone keeps the queue. -/
theorem safe_engine_alone (halone : w.state.queue.Alone) {p : Delivery ℓ α χ β}
    (hp : p.Within (deliveryFrame ℓ fun m => ¬ m.TakesIn))
    (h : p.Safe (d.watching assume Eq) Q E w₀ w) :
    p.Safe (d.aloneContract assume)
      (fun a w₀ w' => Q a w₀ w' ∧ w'.state.queue = w.state.queue ∧ Advances w.trace w'.trace)
      (fun e w₀ w' => E e w₀ w' ∧ w'.state.queue = w.state.queue ∧ Advances w.trace w'.trace) w₀ w := by
  have hguarantee : w₀.state.pendingWriteOwner.isSome = false →
      w.state.pendingWriteOwner.isSome = false := fun _ => by
    rw [Option.isSome_eq_false_iff, Option.isNone_iff_eq_none]
    exact halone.owner
  refine ((d.alone (fun q => q.pendingWrites) fun _ => True).safe_engine
    (K := fun w' => w'.state.queue = w.state.queue ∧ Advances w.trace w'.trace) ?_ ?_ hp hguarantee
    ⟨rfl, .refl _⟩ h).mono (fun _ _ _ h => ⟨h.1, h.2.2⟩) fun _ _ _ h => ⟨h.1, h.2.2⟩
  · rintro w₁ _ hw₁ rfl
    exact hw₁
  · exact fun w₁ w₂ hw₁ hkept hadvances =>
      ⟨hkept.queue.trans hw₁.1, hw₁.2.trans hadvances⟩

/-- The pending writes are flushed by the lane itself. -/
theorem safe_flushPendingWrites_alone (halone : w.state.queue.Alone)
    (hawaits : d.Awaits w.trace (checkpoints w.state.pendingWrites)) :
    (d.flushPendingWrites : Delivery ℓ α χ Unit).Safe (d.aloneContract assume)
      (fun _ _ w' => NothingLeft w.state.lane w.trace w' ∧
        AllSettled w'.trace (checkpoints w.state.pendingWrites))
      (fun _ _ w' => NothingLeft w.state.lane w.trace w') w₀ w := by
  have howner : w.state.pendingWriteOwner.isNone = true := by
    rw [Option.isNone_iff_eq_none]
    exact halone.owner
  unfold flushPendingWrites closePendingWriteOwner
  rw [safe_bind, safe_bind, safe_read, if_pos howner]
  unfold flushPendingWritesOnce
  rw [pure_eq_ret, safe_ret, safe_bind, safe_read]
  split
  · rename_i hempty
    rw [List.isEmpty_iff] at hempty
    rw [hempty]
    exact ⟨⟨rfl, halone, .refl _, hempty⟩, allSettled_nil _⟩
  · rw [safe_bind]
    refine safe_modify_of fun w₁ hstate htrace => ?_
    have hqueue : w₁.state.queue = { w.state.queue with pendingWrites := [] } :=
      congrArg RunState.queue hstate
    have halone₁ : w₁.state.queue.Alone := by
      rw [hqueue]
      exact ⟨halone.owner, halone.uses⟩
    rw [← htrace] at hawaits
    have hlost : ∀ {w' : RunWorld ℓ α χ}, w'.state.queue = w₁.state.queue →
        Advances w₁.trace w'.trace → NothingLeft w.state.lane w.trace w' := by
      intro w' hqueue' hadvances
      have hq := hqueue'.trans hqueue
      exact ⟨congrArg QueueState.lane hq, hqueue' ▸ halone₁, htrace ▸ hadvances,
        congrArg QueueState.pendingWrites hq⟩
    exact (safe_engine_alone halone₁ (d.within_flushBatch allowsEngine_not_takesIn.writes _)
      (safe_flushBatch_watching (fun _ _ hr => hr ▸ List.prefix_rfl) hawaits)).mono
      (fun _ _ w' hw' => ⟨hlost hw'.2.1 hw'.2.2, hw'.1.2⟩) fun _ _ w' hw' => hlost hw'.2.1 hw'.2.2

/-- A write is appended to the pending ones, which are flushed once there are enough of them. -/
theorem safe_appendPendingWrite_alone {writerBatchSize : ℕ} (halone : w.state.queue.Alone)
    (write : PendingWrite α χ)
    (hawaits : d.Awaits w.trace (checkpoints w.state.pendingWrites ++ [write.checkpoint])) :
    (do
      let pendingCount ← appendPendingWrite write
      if writerBatchSize ≤ pendingCount then d.flushPendingWrites else pure () :
      Delivery ℓ α χ Unit).Safe (d.aloneContract assume)
      (fun _ _ w' => FrontSettled w.state.lane w.trace
        (checkpoints w.state.pendingWrites ++ [write.checkpoint]) w')
      (fun _ _ w' => NothingLeft w.state.lane w.trace w') w₀ w := by
  unfold appendPendingWrite
  rw [safe_bind, safe_bind]
  refine safe_modify_of fun w₁ hstate htrace => ?_
  have hqueue : w₁.state.queue = { w.state.queue with
      pendingWrites := w.state.pendingWrites ++ [write] } :=
    congrArg RunState.queue hstate
  have halone₁ : w₁.state.queue.Alone := by
    rw [hqueue]
    exact ⟨halone.owner, halone.uses⟩
  have hlane : w₁.state.lane = w.state.lane := congrArg QueueState.lane hqueue
  have hwrites : w₁.state.pendingWrites = w.state.pendingWrites ++ [write] :=
    congrArg QueueState.pendingWrites hqueue
  have hcheckpoints : checkpoints w₁.state.pendingWrites =
      checkpoints w.state.pendingWrites ++ [write.checkpoint] := by
    rw [hwrites, checkpoints, List.map_append]
    rfl
  rw [safe_bind, safe_read]
  refine (safe_ret _).mpr ?_
  rw [← hcheckpoints] at hawaits ⊢
  split
  · rw [← htrace] at hawaits
    refine (safe_flushPendingWrites_alone halone₁ hawaits).mono (fun _ _ w' hw' => ?_)
      fun _ _ w' hw' => ?_
    · obtain ⟨hlost, hsettled⟩ := hw'
      refine ⟨hlost.lane_eq.trans hlane, hlost.alone, htrace ▸ hlost.advances, _, ?_, hsettled⟩
      rw [hlost.nothing]
      exact (List.append_nil _).symm
    · exact ⟨hw'.lane_eq.trans hlane, hw'.alone, htrace ▸ hw'.advances, hw'.nothing⟩
  · exact ⟨hlane, halone₁, htrace ▸ .refl _, [], rfl, allSettled_nil _⟩

/-- A record joins the pending writes, which are flushed once there are enough of them. -/
theorem safe_queueSuccessRecord_alone {fuel writerBatchSize : ℕ}
    (huses : d.usesPendingWriteOwner writerBatchSize = false) (halone : w.state.queue.Alone)
    {checkpoint : Option χ}
    (hawaits : d.Awaits w.trace (checkpoints w.state.pendingWrites ++ [checkpoint]))
    (result rawRecord : α) (onSuccess : List Hook) :
    (d.queueSuccessRecord fuel result rawRecord checkpoint writerBatchSize onSuccess :
      Delivery ℓ α χ Unit).Safe (d.aloneContract assume)
      (fun _ _ w' => FrontSettled w.state.lane w.trace
        (checkpoints w.state.pendingWrites ++ [checkpoint]) w')
      (fun _ _ w' => NothingLeft w.state.lane w.trace w') w₀ w := by
  -- the record is appended in a world that differs from the first one in the cached flag only
  have happend : ∀ (hooks : List Hook) {w₀ w₁ : RunWorld ℓ α χ}, w₁.state.queue.Alone →
      w₁.state.lane = w.state.lane → w₁.state.pendingWrites = w.state.pendingWrites →
      w₁.trace = w.trace → (do
        let pendingCount ← appendPendingWrite ⟨result, rawRecord, checkpoint, hooks⟩
        if writerBatchSize ≤ pendingCount then d.flushPendingWrites else pure () :
        Delivery ℓ α χ Unit).Safe (d.aloneContract assume)
        (fun _ _ w' => FrontSettled w.state.lane w.trace
          (checkpoints w.state.pendingWrites ++ [checkpoint]) w')
        (fun _ _ w' => NothingLeft w.state.lane w.trace w') w₀ w₁ := by
    intro hooks w₀ w₁ halone₁ hlane hwrites htrace
    rw [← htrace, ← hwrites] at hawaits
    rw [← hlane, ← hwrites, ← htrace]
    exact safe_appendPendingWrite_alone halone₁ ⟨result, rawRecord, checkpoint, hooks⟩ hawaits
  unfold queueSuccessRecord
  rw [safe_bind]
  refine safe_successHookFor fun hooks w₁ hqueue htrace => ?_
  have halone₁ : w₁.state.queue.Alone := hqueue ▸ halone
  have hlane := congrArg QueueState.lane hqueue
  have hwrites := congrArg QueueState.pendingWrites hqueue
  unfold pendingWriteUsesOwner
  rw [safe_bind, safe_bind, safe_read]
  cases hcached : w₁.state.pendingWriteUsesOwner with
  | some uses =>
    cases uses with
    | true => exact absurd hcached halone₁.uses
    | false => exact happend hooks halone₁ hlane hwrites htrace
  | none =>
    rw [safe_bind]
    refine safe_modify_of fun w₂ hstate htrace₂ => ?_
    refine (safe_ret _).mpr ?_
    rw [huses]
    have hqueue₂ : w₂.state.queue = { w₁.state.queue with pendingWriteUsesOwner := some false } :=
      (congrArg RunState.queue hstate).trans (by rw [huses]; rfl)
    refine happend hooks ?_ ?_ ?_ (htrace₂.trans htrace)
    · rw [hqueue₂]
      exact ⟨halone₁.owner, nofun⟩
    · exact (congrArg QueueState.lane hqueue₂).trans hlane
    · exact (congrArg QueueState.pendingWrites hqueue₂).trans hwrites

end Flush

end DeliveryEngine

namespace ExecutionCoordinator

open DeliveryEngine

variable (c : ExecutionCoordinator α χ) [DecidableEq α] [DecidableEq χ]
  {assume : RunTrace α χ → Event (Call α χ) Call.Ret (Mark α χ) → Prop}

omit [DecidableEq α] [DecidableEq χ] in
/-- A lane that runs alone has shown its guarantee. -/
theorem alone_guarantee {w₀ w : RunWorld ℓ α χ} (h : w.state.queue.Alone) :
    w₀.state.pendingWriteOwner.isSome = false → w.state.pendingWriteOwner.isSome = false := by
  intro _
  rw [Option.isSome_eq_false_iff, Option.isNone_iff_eq_none]
  exact h.owner

/-- The body of the loop without the buffer, as the record rule reads it. -/
theorem queueRecord_eq (hbatch : 1 < c.writerBatchSize) (fuel : ℕ) (record : SourceRecord α χ) :
    c.queueRecord fuel record = (do
      takeRecord record
      let outcome ← c.chain.processOutcome record.raw
      match outcome.1 with
      | none => c.delivery.dropRecord record.checkpoint outcome.2 record.onSuccess (some record.raw)
      | some value => do
        note (.accepted record)
        c.delivery.queueSuccessRecord fuel value record.raw record.checkpoint c.writerBatchSize
          record.onSuccess) := by
  unfold queueRecord
  refine congrArg (takeRecord record >>= ·) (funext fun _ => ?_)
  refine congrArg (c.chain.processOutcome record.raw >>= ·) (funext fun outcome => ?_)
  unfold deliverRecord
  rw [if_pos hbatch]
  obtain ⟨result, failure⟩ := outcome
  cases result with
  | none => rfl
  | some value => rfl

section Queue

/-- The agreement of the lane without the buffer. -/
abbrev queueing : Supervised ℓ α χ := c.delivery.alone (fun q => q.pendingWrites) fun _ => True

variable {w₀ w : RunWorld ℓ α χ}

/-- A record that the chain passes on joins the pending writes. -/
theorem safe_acceptQueued {fuel : ℕ} (huses : c.usesOwner = false) {done : List (SourceRecord α χ)}
    {r : SourceRecord α χ} (value : α) (hw : c.queueing.Taken c.delivery done r w) :
    (do
      note (.accepted r)
      c.delivery.queueSuccessRecord fuel value r.raw r.checkpoint c.writerBatchSize r.onSuccess :
      Delivery ℓ α χ Unit).Safe (c.delivery.aloneContract assume)
      (fun _ w₀ w' => c.queueing.guarantee w₀ w' ∧
        c.queueing.BetweenRecords c.delivery (done ++ [r]) w')
      (fun _ w₀ w' => c.queueing.guarantee w₀ w' ∧ c.queueing.left w') w₀ w := by
  rw [safe_bind, safe_note]
  refine fun _ => ⟨savesCovered_mark _ _, ?_⟩
  have hpending := hw.fed.2.accept hw.consumed hw.known
  refine (safe_queueSuccessRecord_alone (w := w.mark (.accepted r)) huses hw.fed.1.1 hpending.awaits
    value r.raw r.onSuccess).mono (fun _ _ w' hw' => ?_) fun _ _ w' hw' => ?_
  · refine ⟨alone_guarantee hw'.alone, ⟨⟨hw'.alone, trivial⟩, ?_⟩, ?_, ?_⟩
    · have hrest : c.delivery.Outstanding w'.trace (checkpoints w'.state.pendingWrites ++ []) :=
        hw'.pending (by rwa [List.append_nil])
      rwa [List.append_nil] at hrest
    · rw [hw'.advances.consumed]
      exact (consumedRecords_accepted _ _).trans hw.consumed
    · exact hw.known.accept.mono hw'.advances.grows hw'.advances.accepted
  · refine ⟨alone_guarantee hw'.alone, ⟨hw'.alone, trivial⟩, ?_⟩
    exact hw'.awaits

variable (hassume : ∀ t, assume t (.mark (.dropping true)) → AllSettled t (acceptedCheckpoints t))

include hassume in
/-- The lane without the buffer and without the owner saves only what covers handled records. -/
theorem safe_runQueueLane_alone (hbatch : 1 < c.writerBatchSize) (huses : c.usesOwner = false)
    (fuel : ℕ) (records : List (SourceRecord α χ)) {w : RunWorld (List (PendingWrite α χ)) α χ}
    (hw : c.queueing.BetweenRecords c.delivery [] w) :
    (c.runQueueLane fuel records).Safe (c.delivery.aloneContract assume)
      (fun _ => c.queueing.guarantee) (fun _ => c.queueing.guarantee) w w := by
  unfold runQueueLane
  rw [safe_bind]
  refine (c.queueing.safe_source (fun done r w₀ w₁ hw₀ hw₁ => ?_) id hw).mono
    (fun sourceError w₀ w₁ hw₁ => ?_) fun _ _ _ he => he.1
  · rw [c.queueRecord_eq hbatch]
    exact c.queueing.safe_record hassume
      (fun value _ _ _ hw' => c.safe_acceptQueued huses value hw') hw₀ hw₁
  · -- what is left is flushed, and the error of the source is raised in the end
    obtain ⟨-, ⟨halone, -⟩, hawaits⟩ := hw₁
    rw [safe_bind]
    refine safe_modify_of fun w₂ hstate htrace => ?_
    have hqueue : w₂.state.queue = w₁.state.queue := (congrArg RunState.queue hstate).trans rfl
    rw [← hqueue, ← htrace] at hawaits
    rw [safe_bind]
    refine (safe_flushPendingWrites_alone (hqueue ▸ halone) hawaits).mono (fun _ _ w₃ hw₃ => ?_)
      fun _ _ w₃ hw₃ => alone_guarantee hw₃.alone
    cases sourceError with
    | none => exact alone_guarantee hw₃.1.alone
    | some exc => exact alone_guarantee hw₃.1.alone

end Queue

section Buffer

/-- The shape of the queue where the buffer is written directly: the pending writes stay empty. -/
def Direct (q : QueueState (List (PendingWrite α χ)) α χ) : Prop :=
  c.directFlushEligible = true → q.pendingWrites = []

/-- The agreement of the lane with the buffer: the records wait in the pending writes, and behind them
in the buffer. -/
abbrev buffering : Supervised (List (PendingWrite α χ)) α χ :=
  c.delivery.alone (fun q => q.pendingWrites ++ q.lane) c.Direct

variable {w₀ w : RunWorld (List (PendingWrite α χ)) α χ}

/-- The records of a batch are queued one by one. -/
theorem safe_queueBatch_alone {fuel : ℕ} (huses : c.usesOwner = false)
    (batch : List (PendingWrite α χ)) (halone : w.state.queue.Alone)
    (hawaits : c.delivery.Awaits w.trace (checkpoints w.state.pendingWrites ++ checkpoints batch)) :
    (c.queueBatch fuel batch).Safe (c.delivery.aloneContract assume)
      (fun _ _ w' => FrontSettled w.state.lane w.trace
        (checkpoints w.state.pendingWrites ++ checkpoints batch) w')
      (fun _ _ w' => NothingLeft w.state.lane w.trace w') w₀ w := by
  induction batch generalizing w₀ w with
  | nil => exact ⟨rfl, halone, .refl _, [], List.append_nil _, allSettled_nil _⟩
  | cons item batch ih =>
    have hcons : checkpoints w.state.pendingWrites ++ checkpoints (item :: batch) =
        (checkpoints w.state.pendingWrites ++ [item.checkpoint]) ++ checkpoints batch :=
      List.append_cons _ _ _
    rw [hcons] at hawaits ⊢
    unfold queueBatch
    rw [safe_bind]
    refine (safe_queueSuccessRecord_alone huses halone hawaits.front item.processed item.raw
      item.onSuccess).mono (fun _ w₀ w₁ hw₁ => ?_) fun _ _ _ he => he
    have hrest := @ih w₀ w₁ hw₁.alone (hw₁.awaits hawaits)
    rw [hw₁.lane_eq] at hrest
    exact hrest.mono (fun _ _ _ hw₂ => hw₁.trans hw₂) fun _ _ _ hw₂ => NothingLeft.after hw₁ hw₂

/-- The buffer is emptied into the writer or into the pending writes. -/
theorem safe_emptyBuffer {fuel : ℕ} (huses : c.usesOwner = false) (halone : w.state.queue.Alone)
    (hdirect : c.Direct w.state.queue)
    (hawaits : c.delivery.Awaits w.trace (checkpoints (w.state.pendingWrites ++ w.state.lane))) :
    (c.emptyBuffer fuel).Safe (c.delivery.aloneContract assume)
      (fun _ _ w' => FrontSettled [] w.trace (checkpoints (w.state.pendingWrites ++ w.state.lane)) w' ∧
        c.Direct w'.state.queue)
      (fun _ _ w' => NothingLeft [] w.trace w') w₀ w := by
  unfold emptyBuffer takeBuffer
  rw [safe_bind, safe_bind, safe_read, safe_bind]
  refine safe_modify_of fun w₁ hstate htrace => (safe_ret _).mpr ?_
  have hqueue : w₁.state.queue = { w.state.queue with lane := [] } :=
    (congrArg RunState.queue hstate).trans rfl
  have hlane : w₁.state.lane = [] := congrArg QueueState.lane hqueue
  have hwrites : w₁.state.pendingWrites = w.state.pendingWrites :=
    congrArg QueueState.pendingWrites hqueue
  have halone₁ : w₁.state.queue.Alone := by
    rw [hqueue]
    exact ⟨halone.owner, halone.uses⟩
  rw [checkpoints, List.map_append] at hawaits ⊢
  split
  · -- the buffer is written directly, and nothing else waits
    rename_i heligible
    have hnothing : w.state.pendingWrites = [] := hdirect heligible
    rw [hnothing] at hawaits ⊢
    rw [← htrace] at hawaits
    refine (safe_engine_alone halone₁ (c.delivery.within_flushBatchDirect
      allowsEngine_not_takesIn.writes _) (safe_flushBatchDirect_watching
        (fun _ _ hr => hr ▸ List.prefix_rfl) hawaits)).mono (fun _ _ w₂ hw₂ => ?_) fun _ _ w₂ hw₂ => ?_
    · obtain ⟨⟨-, hsettled⟩, hqueue₂, hadvances⟩ := hw₂
      have hnothing₂ : w₂.state.pendingWrites = [] :=
        ((congrArg QueueState.pendingWrites hqueue₂).trans hwrites).trans hnothing
      refine ⟨⟨(congrArg QueueState.lane hqueue₂).trans hlane, hqueue₂ ▸ halone₁,
        htrace ▸ hadvances, _, ?_, hsettled⟩, fun _ => hnothing₂⟩
      rw [hnothing₂]
      exact (List.append_nil _).symm
    · obtain ⟨-, hqueue₂, hadvances⟩ := hw₂
      exact ⟨(congrArg QueueState.lane hqueue₂).trans hlane, hqueue₂ ▸ halone₁, htrace ▸ hadvances,
        ((congrArg QueueState.pendingWrites hqueue₂).trans hwrites).trans hnothing⟩
  · rename_i hnot
    rw [← hwrites, ← htrace] at hawaits ⊢
    refine (c.safe_queueBatch_alone huses w.state.lane halone₁ hawaits).mono (fun _ _ w₂ hw₂ => ?_)
      fun _ _ w₂ hw₂ => ?_
    · rw [hlane] at hw₂
      exact ⟨hw₂, fun heligible => absurd heligible hnot⟩
    · rw [hlane] at hw₂
      exact hw₂

/-- A record that the chain passes on joins the buffer, which is emptied once it is full. -/
theorem safe_acceptBuffered {fuel : ℕ} (huses : c.usesOwner = false) {done : List (SourceRecord α χ)}
    {r : SourceRecord α χ} (value : α) (hw : c.buffering.Taken c.delivery done r w) :
    (do
      note (.accepted r)
      let full ← c.pushBuffer ⟨value, r.raw, r.checkpoint, r.onSuccess⟩
      if full then c.emptyBuffer fuel else pure () : LinearDelivery α χ Unit).Safe
      (c.delivery.aloneContract assume)
      (fun _ w₀ w' => c.buffering.guarantee w₀ w' ∧
        c.buffering.BetweenRecords c.delivery (done ++ [r]) w')
      (fun _ w₀ w' => c.buffering.guarantee w₀ w' ∧ c.buffering.left w') w₀ w := by
  obtain ⟨⟨⟨halone, hdirect⟩, hpending⟩, hconsumed, hknown⟩ := hw
  rw [safe_bind, safe_note]
  refine fun _ => ⟨savesCovered_mark _ _, ?_⟩
  unfold pushBuffer
  rw [safe_bind, safe_bind]
  refine safe_modify_of fun w₁ hstate htrace => ?_
  rw [safe_bind, safe_read]
  refine (safe_ret _).mpr ?_
  have hqueue : w₁.state.queue = { w.state.queue with
      lane := w.state.lane ++ [⟨value, r.raw, r.checkpoint, r.onSuccess⟩] } :=
    (congrArg RunState.queue hstate).trans rfl
  have halone₁ : w₁.state.queue.Alone := by
    rw [hqueue]
    exact ⟨halone.owner, halone.uses⟩
  have hdirect₁ : c.Direct w₁.state.queue := by
    rw [hqueue]
    exact hdirect
  have hpending₁ : c.delivery.Outstanding w₁.trace
      (checkpoints (w₁.state.pendingWrites ++ w₁.state.lane)) := by
    have hwaiting : checkpoints (w₁.state.pendingWrites ++ w₁.state.lane) =
        checkpoints (w.state.pendingWrites ++ w.state.lane) ++ [r.checkpoint] := by
      rw [show w₁.state.pendingWrites = w.state.pendingWrites from
        congrArg QueueState.pendingWrites hqueue, show w₁.state.lane = _ from
        congrArg QueueState.lane hqueue]
      simp [checkpoints]
    rw [hwaiting, htrace]
    exact hpending.accept hconsumed hknown
  have hconsumed₁ : consumedRecords w₁.trace = done ++ [r] := by
    rw [htrace]
    exact (consumedRecords_accepted _ _).trans hconsumed
  have hknown₁ : c.delivery.Known w₁.trace (done ++ [r]) := by
    rw [htrace]
    exact hknown.accept
  split
  · refine (c.safe_emptyBuffer huses halone₁ hdirect₁ hpending₁.awaits).mono (fun _ _ w₂ hw₂ => ?_)
      fun _ _ w₂ hw₂ => ?_
    · obtain ⟨hdelivered, hdirect₂⟩ := hw₂
      refine ⟨alone_guarantee hdelivered.alone, ⟨⟨hdelivered.alone, hdirect₂⟩, ?_⟩, ?_, ?_⟩
      · have hrest : c.delivery.Outstanding w₂.trace (checkpoints w₂.state.pendingWrites ++ []) :=
          hdelivered.pending (by rwa [List.append_nil])
        rw [List.append_nil] at hrest
        have hlane : w₂.state.queue.lane = [] := hdelivered.lane_eq
        dsimp only
        rw [hlane, List.append_nil]
        exact hrest
      · exact hdelivered.advances.consumed.trans hconsumed₁
      · exact hknown₁.mono hdelivered.advances.grows hdelivered.advances.accepted
    · refine ⟨alone_guarantee hw₂.alone, ⟨hw₂.alone, fun _ => hw₂.nothing⟩, ?_⟩
      have hlane : w₂.state.queue.lane = [] := hw₂.lane_eq
      dsimp only
      rw [hlane, List.append_nil]
      exact hw₂.awaits
  · exact ⟨alone_guarantee halone₁, ⟨⟨halone₁, hdirect₁⟩, hpending₁⟩, hconsumed₁, hknown₁⟩

/-- What is left in the buffer after the source has ended is delivered. -/
theorem safe_emptyRemaining {fuel : ℕ} (huses : c.usesOwner = false) (hw : c.buffering.left w) :
    (c.emptyRemaining fuel).Safe (c.delivery.aloneContract assume)
      (fun _ _ w' => w'.state.queue.Alone) (fun _ _ w' => w'.state.queue.Alone) w₀ w := by
  obtain ⟨⟨halone, hdirect⟩, hawaits⟩ := hw
  unfold emptyRemaining
  rw [safe_bind, safe_read]
  split
  · exact halone
  · rw [safe_bind]
    refine (c.safe_emptyBuffer huses halone hdirect hawaits).mono (fun _ _ w₁ hw₁ => ?_)
      fun _ _ _ he => he.alone
    split
    · exact hw₁.1.alone
    · have hrest : c.delivery.Awaits w₁.trace (checkpoints w₁.state.pendingWrites ++ []) :=
        hw₁.1.awaits (by rwa [List.append_nil])
      rw [List.append_nil] at hrest
      exact (safe_flushPendingWrites_alone hw₁.1.alone hrest).mono (fun _ _ _ hw₂ => hw₂.1.alone)
        fun _ _ _ hw₂ => hw₂.alone

variable (hassume : ∀ t, assume t (.mark (.dropping true)) → AllSettled t (acceptedCheckpoints t))

include hassume in
/-- The lane with the buffer saves only what covers handled records. -/
theorem safe_runBufferLane (huses : c.usesOwner = false) (fuel : ℕ)
    (records : List (SourceRecord α χ)) (hw : c.buffering.BetweenRecords c.delivery [] w) :
    (c.runBufferLane fuel records).Safe (c.delivery.aloneContract assume)
      (fun _ => c.buffering.guarantee) (fun _ => c.buffering.guarantee) w w := by
  unfold runBufferLane
  rw [safe_bind]
  refine (c.buffering.safe_source (fun done r w₀ w₁ hw₀ hw₁ => ?_) id hw).mono
    (fun sourceError w₀ w₁ hw₁ => ?_) fun _ _ _ he => he.1
  · exact c.buffering.safe_record hassume
      (fun value _ _ _ hw' => c.safe_acceptBuffered huses value hw') hw₀ hw₁
  · rw [safe_bind]
    refine (c.safe_emptyRemaining huses hw₁.2).mono (fun _ w₀ w₂ hw₂ => ?_)
      fun _ _ _ hw₂ => alone_guarantee hw₂
    rw [safe_bind]
    refine safe_modify_of fun w₃ hstate _ => ?_
    have hqueue : w₃.state.queue = w₂.state.queue := (congrArg RunState.queue hstate).trans rfl
    rw [← hqueue] at hw₂
    cases sourceError with
    | none => exact alone_guarantee hw₂
    | some exc => exact alone_guarantee hw₂

end Buffer

end ExecutionCoordinator

end AgoraEtl
