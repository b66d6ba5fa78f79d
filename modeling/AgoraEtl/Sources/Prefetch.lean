import AgoraEtl.Delivery.Types
import AgoraEtl.Effect.Runs

/-!
# Prefetching a source

`SourceRuntimeAdapter` either streams a source directly or puts a producer and a bounded buffer
between the source and the lane: a thread with a record buffer, or an asyncio task with a queue.
Each adapter is a transition system whose steps are those of its producer and of its consumer, in
any order.

An adapter is transparent when every run yields what the direct stream yields, can always be
completed, and then ends as the direct stream does.
-/

namespace AgoraEtl.Prefetch

open Effect

variable {α χ : Type}

/-! ### The source -/

/-- A source: the records that it produces, the exception that it raises after them, if any, and
what `current_checkpoint()` and the delivery callback are after a number of productions. -/
structure Source (α χ : Type) where
  records : List α
  ending : Option Exc
  checkpointCapable : Bool
  hasDeliveryHook : Bool
  currentCheckpoint : ℕ → Option χ
  deliveryCallback : ℕ → List Hook

namespace Source

/-- `_make_source_record`, with the callback, after `produced` productions. -/
def makeSourceRecord (source : Source α χ) (produced : ℕ) (record : α) : SourceRecord α χ where
  raw := record
  checkpoint := if source.checkpointCapable then source.currentCheckpoint produced else none
  onSuccess := if source.hasDeliveryHook then source.deliveryCallback produced else []

/-- The records of the direct stream. -/
def direct (source : Source α χ) : List (SourceRecord α χ) :=
  source.records.mapIdx fun i record => source.makeSourceRecord (i + 1) record

@[simp]
theorem length_direct (source : Source α χ) : source.direct.length = source.records.length := by
  simp [direct]

theorem take_direct_succ (source : Source α χ) {produced : ℕ} {record : α}
    (h : source.records[produced]? = some record) :
    source.direct.take (produced + 1) =
      source.direct.take produced ++ [source.makeSourceRecord (produced + 1) record] := by
  have hget : source.direct[produced]? =
      some (source.makeSourceRecord (produced + 1) record) := by
    simp [direct, h]
  rw [List.take_add_one, hget]
  rfl

end Source

/-- The exception that the handler of the producer catches. -/
def Source.caught (source : Source α χ) : Option Exc :=
  match source.ending with
  | none => none
  | some exc => if exc.isException then some exc else none

/-- How a stream ended: its records, and the exception that it raised. -/
abbrev Streamed (α χ : Type) := List (SourceRecord α χ) × Option Exc

/-- What the direct stream gives. -/
def Source.streamed (source : Source α χ) : Streamed α χ := (source.direct, source.ending)

/-- Every run of an adapter that has ended gave what is expected, and every run can be completed. -/
def Streams {σ ι : Type} (step : σ → ι → σ → Prop) (start : σ)
    (outcome : σ → Option (Streamed α χ)) (expected : Streamed α χ) : Prop :=
  ∀ labels s, Runs step start labels s →
    (∀ given, outcome s = some given → given = expected) ∧
      ∃ labels' s', Runs step s labels' s' ∧ (outcome s').isSome

/-- An adapter streams one thing only. -/
theorem Streams.unique {σ ι : Type} {step : σ → ι → σ → Prop} {start : σ}
    {outcome : σ → Option (Streamed α χ)} {expected expected' : Streamed α χ}
    (h : Streams step start outcome expected) (h' : Streams step start outcome expected') :
    expected = expected' := by
  obtain ⟨labels, s, hrun, hsome⟩ := (h [] start .start).2
  obtain ⟨given, hgiven⟩ := Option.isSome_iff_exists.mp hsome
  exact ((h labels s hrun).1 given hgiven).symm.trans ((h' labels s hrun).1 given hgiven)

/-- The two sides of an adapter. -/
inductive Side where
  | producer
  | consumer

end AgoraEtl.Prefetch
