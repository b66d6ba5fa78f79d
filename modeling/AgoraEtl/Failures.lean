import Mathlib.Tactic.Common

/-!
# Exceptions and their classification

The exceptions that travel through the runtime, and `classifyFailure`, which decides for each of
them whether the operation may be retried and whether the record may be kept in the dead-letter
queue.  Exceptions raised by the code under the runtime (sources, middlewares, sinks, stores) are
external; the others are raised by the runtime itself.
-/

namespace AgoraEtl

/-- The shared machine-readable failure categories. -/
inductive FailureClassification : Type where
  | deserialization
  | serialization
  | schemaEvolution
  | schemaValidation
  | schemaRegistryBindingMismatch
  | schemaDrift
  | constraintViolation
  | typeMismatch
  | connectivity
  | timeout
  | authorization
  | configuration
  | unknown
  deriving DecidableEq, Repr

/-- The severity of a failure decision. -/
inductive AlertSeverity : Type where
  | info
  | warning
  | error
  | critical
  deriving DecidableEq, Repr

/-- The entries of a details dictionary. -/
abbrev Details : Type := List (String × String)

/-- One failure outcome shared by retry, DLQ routing and diagnostics. -/
structure FailureDecision : Type where
  classification : FailureClassification
  retryable : Bool
  dlqEligible : Bool
  alertSeverity : AlertSeverity
  reason : Option String
  details : Details
  deriving DecidableEq, Repr

/-- Structured poison-record metadata carried by an exception. -/
structure PoisonRecordInfo : Type where
  classification : FailureClassification
  reason : Option String
  details : Details
  deriving DecidableEq, Repr

/-- The built-in classes that `classifyFailure` tells apart. -/
inductive ExceptionClass : Type where
  | timeoutError
  | osError
  | unicodeDecodeError
  | unicodeEncodeError
  | other
  deriving DecidableEq, Repr

/-- The `dlq_details` attribute of an exception: a dictionary, or anything else. -/
inductive DlqDetails : Type where
  | dictionary (entries : Details)
  | provider (text : String)
  deriving DecidableEq, Repr

/-- An exception raised by the code under the runtime. -/
structure ExternalError : Type where
  typeName : String
  message : String
  cls : ExceptionClass
  failureDecision : Option FailureDecision
  poisonInfo : Option PoisonRecordInfo
  dlqDetails : Option DlqDetails
  deriving DecidableEq, Repr

/-- The exceptions of the runtime. -/
inductive Exc : Type where
  | external (e : ExternalError)
  | fenceLost (message : String)
  | recordDelivery (original : Exc)
  | checkpointSave (original : Exc)
  | runtimeError (message : String)
  | valueError (message : String)
  | cancelled
  | keyboardInterrupt
  deriving DecidableEq, Repr

namespace Exc

/-- The exception is an instance of `Exception`, so that `except Exception` catches it. -/
def isException : Exc → Bool
  | cancelled => false
  | keyboardInterrupt => false
  | _ => true

/-- The exception is an instance of `FenceLostError`. -/
def isFenceLost : Exc → Bool
  | fenceLost _ => true
  | _ => false

/-- `type(exc).__name__`. -/
def typeName : Exc → String
  | external e => e.typeName
  | fenceLost _ => "FenceLostError"
  | recordDelivery _ => "RecordDeliveryError"
  | checkpointSave _ => "_CheckpointSaveError"
  | runtimeError _ => "RuntimeError"
  | valueError _ => "ValueError"
  | cancelled => "CancelledError"
  | keyboardInterrupt => "KeyboardInterrupt"

/-- `str(exc)`. -/
def message : Exc → String
  | external e => e.message
  | fenceLost m => m
  | recordDelivery e => e.message
  | checkpointSave e => e.message
  | runtimeError m => m
  | valueError m => m
  | cancelled => ""
  | keyboardInterrupt => ""

/-- `getattr(exc, "dlq_details", None)`. -/
def dlqDetails : Exc → Option DlqDetails
  | external e => e.dlqDetails
  | _ => none

/-- The decision for an exception without attached metadata, by its class. -/
def classDecision (typeName : String) : ExceptionClass → FailureDecision
  | .timeoutError => ⟨.timeout, true, false, .warning, some typeName, []⟩
  | .osError => ⟨.connectivity, true, false, .warning, some typeName, []⟩
  | .unicodeDecodeError => ⟨.deserialization, false, true, .error, some typeName, []⟩
  | .unicodeEncodeError => ⟨.serialization, false, true, .error, some typeName, []⟩
  | .other => ⟨.unknown, false, true, .error, some typeName, []⟩

end Exc

/-- `classify_failure`: an attached decision wins, then poison metadata, then the class. -/
def classifyFailure (exc : Exc) : FailureDecision :=
  match exc with
  | .external e =>
    match e.failureDecision, e.poisonInfo with
    | some decision, _ => decision
    | none, some info => ⟨info.classification, false, true, .error, info.reason, info.details⟩
    | none, none => Exc.classDecision e.typeName e.cls
  | exc => Exc.classDecision exc.typeName .other

/-- The record of the failure may be kept in the dead-letter queue. -/
def Exc.dlqEligible (exc : Exc) : Bool := (classifyFailure exc).dlqEligible

end AgoraEtl
