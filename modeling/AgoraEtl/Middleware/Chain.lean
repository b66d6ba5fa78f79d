import AgoraEtl.Delivery.Support

/-!
# The middleware chain

A chain runs a record, or a whole batch, through its middlewares in order.  On the per-record path
`processRangeOutcome` returns the value or the failure of the record; on the batch path each
middleware implements `applyInBatch` over a list in which `none` marks a record that is gone, and a
batch middleware that raises fails the whole batch.
-/

namespace AgoraEtl

open Effect Program

variable {ℓ α χ : Type}

/-- The kinds of middleware that the batch path tells apart. -/
inductive MiddlewareKind : Type where
  /-- `MapMiddleware`, with a synchronous or an asynchronous function. -/
  | map (isAsync : Bool)
  /-- `FilterMiddleware`, with a synchronous or an asynchronous predicate. -/
  | filter (isAsync : Bool)
  /-- Any other middleware with the default `apply_in_batch`. -/
  | perRecord
  /-- `BatchMiddleware`. -/
  | batch
  /-- `ProcessBatchMiddleware`. -/
  | processBatch
  /-- `ArrowBatchMiddleware`. -/
  | arrowBatch
  /-- `ArrowProcessBatchMiddleware`. -/
  | arrowProcessBatch
  deriving DecidableEq, Repr

/-- A middleware of the chain. -/
structure Middleware : Type where
  name : String
  kind : MiddlewareKind
  /-- `batch_in_flight_limit`. -/
  batchInFlightLimit : ℕ
  deriving DecidableEq, Repr

/-- The ordered list of middlewares. -/
abbrev MiddlewareChain : Type := List Middleware

namespace Middleware

/-- The error of a batch middleware that changes the number of records. -/
def batchLengthError (name : String) (actual expected : ℕ) : Exc :=
  .runtimeError (s!"BatchMiddleware '{name}' returned {actual} " ++
    s!"results for {expected} inputs — lengths must match.")

/-- The error of a worker function that changes the number of records. -/
def workerLengthError (name : String) (actual expected : ℕ) : Exc :=
  .runtimeError (s!"ProcessBatchMiddleware '{name}' fn returned {actual} " ++
    s!"results for {expected} inputs — lengths must match.")

/-- The check of a worker result by the codec of a process-pool middleware. -/
def checkWorkerResult (mw : Middleware) (expected : ℕ) (result : List (Option α)) :
    Except Exc (List (Option α)) :=
  if result.length = expected then .ok result
  else .error (workerLengthError mw.name result.length expected)

/-- `process_batch` of the middleware at the index. -/
def processBatch (mw : Middleware) (index : ℕ) (records : List (Option α)) :
    Delivery ℓ α χ (List (Option α)) := do
  let result ← invoke (.processBatch index records)
  if mw.kind = .processBatch then ofExcept (mw.checkWorkerResult records.length result)
  else pure result

variable [DecidableEq α]

/-- A call of user code that may register success hooks. -/
def callProcess (index : ℕ) (record : α) : Delivery ℓ α χ (Option α) := do
  let answer : Except Exc (Option α) × List (α × Registration) ←
    perform (Call.process index record)
  registerSuccessHooks answer.2
  ofExcept answer.1

/-- The predicate of a filter, as an optional record. -/
def callPredicate (index : ℕ) (record : α) : Delivery ℓ α χ (Option α) := do
  let keep ← invoke (.predicate index record)
  pure (if keep then some record else none)

/-- `process` of the middleware at the index. -/
def process (mw : Middleware) (index : ℕ) (record : α) : Delivery ℓ α χ (Option α) :=
  match mw.kind with
  | .filter _ => callPredicate index record
  | .batch => do
    let results ← invoke (.processBatch index [some record])
    pure (results.head?.bind id)
  | .processBatch => raise (.runtimeError
      (s!"ProcessBatchMiddleware '{mw.name}' requires a batch-capable source; " ++
        "per-record execution is not supported."))
  | .arrowBatch => pure (some record)
  | .arrowProcessBatch => pure (some record)
  | _ => callProcess index record

end Middleware

namespace MiddlewareChain

/-- The middlewares of a slice of the chain with their indices. -/
def slice (chain : MiddlewareChain) (start stop : ℕ) : List (Middleware × ℕ) :=
  (chain.zipIdx.take stop).drop start

/-! ## The per-record path -/

section PerRecord

variable [DecidableEq α]

/-- The value or the failure of a record; both are `none` for a dropped record. -/
abbrev RecordOutcome (α : Type) : Type := Option α × Option (MiddlewareFailure α)

/-- The loop of `process_range_outcome`; `record` is the record the range was entered with. -/
def processStages (record : α) : α → List (Middleware × ℕ) → Delivery ℓ α χ (RecordOutcome α)
  | current, [] => pure (some current, none)
  | current, (mw, index) :: stages => do
    let processed ← attempt (mw.process index current)
    match processed with
    | .error exc =>
      if exc.isException then do
        invoke (.onError index record exc)
        pure (none, some
          { stage := "middleware", record := record, middleware := mw.name, exception := exc })
      else raise exc
    | .ok none => pure (none, none)
    | .ok (some value) => do
      transferSuccessHooks current value
      processStages record value stages

/-- `process_range_outcome`. -/
def processRangeOutcome (chain : MiddlewareChain) (start stop : ℕ) (record : α) :
    Delivery ℓ α χ (RecordOutcome α) :=
  processStages record record (chain.slice start stop)

/-- `process_outcome`. -/
def processOutcome (chain : MiddlewareChain) (record : α) : Delivery ℓ α χ (RecordOutcome α) :=
  chain.processRangeOutcome 0 chain.length record

/-! ## The batch path -/

/-- The default `apply_in_batch`: each record goes through the one stage; a failure leaves the same
`None` as a drop. -/
def applyPerRecord (stage : Middleware × ℕ) : List (Option α) → Delivery ℓ α χ (List (Option α))
  | [] => pure []
  | none :: records => do
    let rest ← applyPerRecord stage records
    pure (none :: rest)
  | some record :: records => do
    let outcome ← processStages record record [stage]
    let rest ← applyPerRecord stage records
    pure ((if outcome.2.isSome then none else outcome.1) :: rest)

/-- The loop shared by the synchronous map and filter paths: `call` is the user function, and a
record whose call raises is replaced by `None`. -/
def applySyncLoop (index : ℕ) (call : α → Delivery ℓ α χ (Option α)) :
    List (Option α) → Delivery ℓ α χ (List (Option α))
  | [] => pure []
  | none :: records => do
    let rest ← applySyncLoop index call records
    pure (none :: rest)
  | some record :: records => do
    let value ← catchException (call record) fun exc => do
      invoke (.onError index record exc)
      pure none
    let rest ← applySyncLoop index call records
    pure (value :: rest)

/-- `_apply_sync_map_batch`. -/
def applySyncMapBatch (index : ℕ) (current : List (Option α)) :
    Delivery ℓ α χ (List (Option α)) :=
  if current.all Option.isNone then pure current
  else applySyncLoop index (Middleware.callProcess index) current

/-- `_apply_sync_filter_batch`. -/
def applySyncFilterBatch (index : ℕ) (current : List (Option α)) :
    Delivery ℓ α χ (List (Option α)) :=
  if current.all Option.isNone then pure current
  else applySyncLoop index (Middleware.callPredicate index) current

end PerRecord

/-- Put the results back into the positions of the records that are still there. -/
def scatter : List (Option α) → List (Option α) → List (Option α)
  | [], _ => []
  | none :: current, results => none :: scatter current results
  | some _ :: current, result :: results => result :: scatter current results
  | some _ :: current, [] => none :: scatter current []

/-- What a stage makes of a batch: the failure of the batch, or the updated list. -/
abbrev StageResult (α : Type) : Type := BatchFailure ⊕ List (Option α)

/-- `BatchMiddleware.apply_in_batch`: the batch is stripped of `None`, processed as a whole, and the
results are scattered back. -/
def applyBatchMiddleware (mw : Middleware) (index : ℕ) (current : List (Option α)) :
    Delivery ℓ α χ (StageResult α) := do
  let active := current.filter Option.isSome
  let processed ← attempt (mw.processBatch index active)
  match processed with
  | .error exc => if exc.isException then pure (.inl ⟨exc, mw.name⟩) else raise exc
  | .ok results =>
    if results.length ≠ active.length then
      raise (Middleware.batchLengthError mw.name results.length active.length)
    else pure (.inr (if current.all Option.isSome then results else scatter current results))

variable [DecidableEq α]

/-- `apply_in_batch` of the middleware at the index. -/
def applyInBatch (mw : Middleware) (index : ℕ) (current : List (Option α)) :
    Delivery ℓ α χ (StageResult α) :=
  match mw.kind with
  | .map false => Sum.inr <$> applySyncMapBatch index current
  | .filter false => Sum.inr <$> applySyncFilterBatch index current
  | .map true => Sum.inr <$> applyPerRecord (mw, index) current
  | .filter true => Sum.inr <$> applyPerRecord (mw, index) current
  | .perRecord => Sum.inr <$> applyPerRecord (mw, index) current
  | .batch => applyBatchMiddleware mw index current
  | .processBatch => applyBatchMiddleware mw index current
  | .arrowBatch => pure (.inr current)
  | .arrowProcessBatch => pure (.inr current)

/-- The loop of `process_batch_range`. -/
def applyStages : List (Middleware × ℕ) → List (Option α) →
    Delivery ℓ α χ (BatchProcessResult α)
  | [], current => pure { results := current, passthrough := false, failure := none }
  | (mw, index) :: stages, current => do
    let result ← applyInBatch mw index current
    match result with
    | .inl failure => pure { results := [], passthrough := false, failure := some failure }
    | .inr next => applyStages stages next

/-- `process_batch_range`. -/
def processBatchRange (chain : MiddlewareChain) (start stop : ℕ) (records : List (Option α)) :
    Delivery ℓ α χ (BatchProcessResult α) :=
  applyStages (chain.slice start stop) records

/-- `process_batch`: an empty chain returns the batch itself. -/
def processBatch (chain : MiddlewareChain) (records : List α) :
    Delivery ℓ α χ (BatchProcessResult α) :=
  if chain.isEmpty then
    pure { results := records.map some, passthrough := true, failure := none }
  else chain.processBatchRange 0 chain.length (records.map some)

/-! ## The Arrow path -/

/-- The rows of an Arrow batch after the chain, or its failure. -/
structure ArrowProcessResult (α : Type) : Type where
  rows : List α
  failure : Option BatchFailure

/-- The loop of `process_arrow_batch_range`; an empty batch skips the remaining stages. -/
def applyArrowStages : List (Middleware × ℕ) → List α →
    Delivery ℓ α χ (ArrowProcessResult α)
  | [], current => pure ⟨current, none⟩
  | (mw, index) :: stages, current =>
    if mw.kind = .arrowBatch ∨ mw.kind = .arrowProcessBatch then do
      let processed ← attempt (invoke (.processArrowBatch index current))
      match processed with
      | .error exc => if exc.isException then pure ⟨[], some ⟨exc, mw.name⟩⟩ else raise exc
      | .ok rows => if rows.isEmpty then pure ⟨rows, none⟩ else applyArrowStages stages rows
    else applyArrowStages stages current

/-- `process_arrow_batch_range`. -/
def processArrowBatchRange (chain : MiddlewareChain) (start stop : ℕ) (rows : List α) :
    Delivery ℓ α χ (ArrowProcessResult α) :=
  applyArrowStages (chain.slice start stop) rows

/-- `process_arrow_batch`. -/
def processArrowBatch (chain : MiddlewareChain) (rows : List α) :
    Delivery ℓ α χ (ArrowProcessResult α) :=
  chain.processArrowBatchRange 0 chain.length rows

end MiddlewareChain

end AgoraEtl
