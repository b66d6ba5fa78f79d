import AgoraEtl.Delivery.BatchWrite
import AgoraEtl.Middleware.Chain

/-!
# The execution coordinator

What the lanes share: the configuration of a run, the hot-path counters, and the exceptions after
which pending work is aborted.
-/

namespace AgoraEtl

open Effect Program

variable {ℓ α χ : Type}

/-- The configuration of a run as the lanes see it. -/
structure ExecutionCoordinator (α χ : Type) : Type where
  delivery : DeliveryEngine α χ
  chain : MiddlewareChain
  writerBatchSize : ℕ
  maxBufferSize : Option ℕ
  /-- An adaptive backpressure controller is configured. -/
  adaptiveBackpressure : Bool
  /-- The Rust acceleration is enabled. -/
  rustAvailable : Bool
  /-- The writer shape is safe for the direct flush. -/
  directFlushEligible : Bool
  /-- The plan keeps Arrow batches through the chain. -/
  arrowChain : Bool
  /-- The writer takes Arrow batches itself. -/
  arrowNativeSink : Bool
  /-- The configuration is normalized. -/
  writerBatchSize_pos : 0 < writerBatchSize

/-- A run with the default configuration. -/
def ExecutionCoordinator.standard (delivery : DeliveryEngine α χ) (chain : MiddlewareChain) :
    ExecutionCoordinator α χ where
  delivery := delivery
  chain := chain
  writerBatchSize := 1
  maxBufferSize := none
  adaptiveBackpressure := false
  rustAvailable := false
  directFlushEligible := false
  arrowChain := false
  arrowNativeSink := false
  writerBatchSize_pos := Nat.one_pos

/-- The interval after which the hot-path counters are committed. -/
def hotFlushInterval : ℕ := 100

/-- `hot.inc_consumed`: whether the flush interval is reached. -/
def incConsumed (n : ℕ) : Delivery ℓ α χ Bool := do
  modify fun s => { s with
    hot := { s.hot with consumed := s.hot.consumed + n, ticks := s.hot.ticks + n } }
  let s ← read
  pure (decide (hotFlushInterval ≤ s.hot.ticks))

/-- `hot.inc_written`. -/
def incWritten (n : ℕ) : Delivery ℓ α χ Unit :=
  modify fun s => { s with hot := { s.hot with written := s.hot.written + n } }

/-- `hot.flush`. -/
def hotFlush : Delivery ℓ α χ Unit :=
  modify fun s => { s with
    metrics := { s.metrics with
      recordsConsumed := s.metrics.recordsConsumed + s.hot.consumed
      recordsWritten := s.metrics.recordsWritten + s.hot.written }
    hot := {} }

/-- Count consumed records and commit the counters when the interval is reached. -/
def consume (n : ℕ) : Delivery ℓ α χ Unit := do
  let due ← incConsumed n
  if due then hotFlush else pure ()

/-- The exceptions on which the lanes abort pending work instead of draining it. -/
def mustAbortPendingWork : Exc → Bool
  | .recordDelivery _ => true
  | .checkpointSave _ => true
  | .cancelled => true
  | .keyboardInterrupt => true
  | _ => false

/-- `async for … in source`: run the body on the elements of the stream in order.  Fetching an
element can raise, and so can fetching past the last one. -/
def forEach {ρ : Type} (body : ρ → Delivery ℓ α χ Unit) : List ρ → Delivery ℓ α χ Unit
  | [] => invoke .sourceNext
  | element :: elements => do
    invoke .sourceNext
    body element
    forEach body elements

end AgoraEtl
