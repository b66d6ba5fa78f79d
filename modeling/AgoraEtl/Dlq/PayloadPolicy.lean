import AgoraEtl.Data.OrderedDict
import Mathlib.Data.Finset.Dedup
import Mathlib.Data.Finset.Lattice.Lemmas

/-!
# Redaction of dead-letter payloads

A payload is built from dicts, lists and scalars.  Redaction descends through it with the names of
sensitive fields until it comes to a list under the key `headers`.  The dicts in such a list are header
entries: they are judged by their `key`, the value of a sensitive one is replaced, and no name is that
of a field any more.
-/

namespace AgoraEtl.DLQPolicy

/-- A key of a dict, or a value that is neither a dict nor a list. -/
inductive Scalar (ω : Type) where
  | str (text : String)
  | other (value : ω)
  deriving DecidableEq

/-- What `json` makes of a document, with the entries of a dict in their order. -/
inductive Payload (ω : Type) where
  | scalar (value : Scalar ω)
  | list (items : List (Payload ω))
  | dict (entries : List (Scalar ω × Payload ω))

/-- An entry of a dict. -/
abbrev Entry (ω : Type) : Type := Scalar ω × Payload ω

/-- What the language makes of values and texts. -/
structure Python (ω : Type) where
  repr : Payload ω → String
  strip : String → String
  lower : String → String

variable {ω : Type} [DecidableEq ω]

namespace Python

variable (py : Python ω)

/-- `str(value)`. -/
def str : Payload ω → String
  | .scalar (.str text) => text
  | value => py.repr value

/-- `_normalize_sensitive_name`. -/
def normalizeSensitiveName (name : String) : String := py.lower (py.strip name)

/-- The name of a field. -/
def name (key : Scalar ω) : String := py.normalizeSensitiveName (py.str (.scalar key))

/-- `_normalize_sensitive_name(str(item.get("key", "")))` -/
def headerKey (entries : List (Entry ω)) : String :=
  py.normalizeSensitiveName (py.str ((entries.lookup (.str "key")).getD (.scalar (.str ""))))

/-- A dict with its keys made strings; where two become the same, the later value stays. -/
def texts (entries : List (Entry ω)) : OrderedDict String (Payload ω) :=
  .ofEntries (entries.map fun entry => (py.str (.scalar entry.1), entry.2))

end Python

/-- A dict whose keys are strings. -/
def Payload.ofDict (d : OrderedDict String (Payload ω)) : Payload ω :=
  .dict (d.entries.map fun entry => (.str entry.1, entry.2))

def redactedText : String := "[REDACTED]"

def commonSensitiveFields : Finset String :=
  ["access_token", "api_key", "authorization", "client_secret", "cookie", "password", "private_key",
    "refresh_token", "secret", "set-cookie", "token", "x-api-key", "x_api_key"].toFinset

def commonSensitiveHeaders : Finset String :=
  ["api-key", "authorization", "cookie", "proxy-authorization", "set-cookie", "x-api-key",
    "x-auth-token"].toFinset

/-! ### The traversal -/

section Redaction

variable (py : Python ω) (headerNames : Finset String) (redactedValue : String)

/-- `_redacted_header_value` -/
def redactedHeaderValue : Payload ω :=
  .dict [(.str "encoding", .scalar (.str "redacted")),
    (.str "data", .scalar (.str redactedValue))]

mutual

/-- `_redact_value` -/
def redactValue (fieldNames : Finset String) (parentKey : Option String) : Payload ω → Payload ω
  | .dict entries => .ofDict (redactEntries fieldNames .empty entries)
  | .list items =>
    if parentKey = some "headers" then .list (redactHeaders items)
    else .list (redactItems fieldNames parentKey items)
  | .scalar value => .scalar value
termination_by structural payload => payload

/-- The loop over the entries of a dict. -/
def redactEntries (fieldNames : Finset String) (redacted : OrderedDict String (Payload ω)) :
    List (Scalar ω × Payload ω) → OrderedDict String (Payload ω)
  | [] => redacted
  | entry :: entries =>
    redactEntries fieldNames
      (redacted.set (py.str (.scalar entry.1)) (redactEntry fieldNames entry)) entries
termination_by structural entries => entries

/-- What an entry becomes. -/
def redactEntry (fieldNames : Finset String) : Scalar ω × Payload ω → Payload ω
  | (key, item) =>
    if py.name key ∈ fieldNames then .scalar (.str redactedValue)
    else redactValue fieldNames (some (py.name key)) item
termination_by structural entry => entry

def redactItems (fieldNames : Finset String) (parentKey : Option String) :
    List (Payload ω) → List (Payload ω)
  | [] => []
  | item :: items =>
    redactValue fieldNames parentKey item :: redactItems fieldNames parentKey items
termination_by structural items => items

def redactHeaders : List (Payload ω) → List (Payload ω)
  | [] => []
  | item :: items => redactHeader item :: redactHeaders items
termination_by structural items => items

/-- `_redact_header` -/
def redactHeader : Payload ω → Payload ω
  | .dict entries =>
    -- without field names the comprehension over `item.items()` is the loop of `_redact_value`
    if py.headerKey entries ∉ headerNames then .ofDict (redactEntries ∅ .empty entries)
    else
      .dict (OrderedDict.setEntry entries (.str "value") (redactedHeaderValue redactedValue))
  | item => item
termination_by structural item => item

end

end Redaction

/-! ### The policy -/

inductive Mode where
  | raw
  | redacted
  | encrypted
  deriving DecidableEq

/-- `DLQPayloadPolicy`, without what only concerns encryption. -/
structure DLQPayloadPolicy where
  mode : Mode := .raw
  redactFields : List String := []
  redactHeaders : List String := []
  redactedValue : String := redactedText
  includeCommonSensitiveNames : Bool := true

namespace DLQPayloadPolicy

/-- `__post_init__`: the names are normalized. -/
def postInit (py : Python ω) (policy : DLQPayloadPolicy) : DLQPayloadPolicy :=
  { policy with
    redactFields := policy.redactFields.map py.normalizeSensitiveName
    redactHeaders := policy.redactHeaders.map py.normalizeSensitiveName }

def redacted (py : Python ω) (redactFields redactHeaders : List String)
    (redactedValue : String := redactedText) (includeCommonSensitiveNames : Bool := true) :
    DLQPayloadPolicy :=
  postInit py {
    mode := .redacted
    redactFields := redactFields
    redactHeaders := redactHeaders
    redactedValue := redactedValue
    includeCommonSensitiveNames := includeCommonSensitiveNames }

def fieldNames (policy : DLQPayloadPolicy) : Finset String :=
  policy.redactFields.toFinset ∪
    if policy.includeCommonSensitiveNames then commonSensitiveFields else ∅

def headerNames (policy : DLQPayloadPolicy) : Finset String :=
  policy.redactHeaders.toFinset ∪
    if policy.includeCommonSensitiveNames then commonSensitiveHeaders else ∅

def apply (py : Python ω) (policy : DLQPayloadPolicy) (payload : Payload ω) : Payload ω :=
  match policy.mode with
  | .raw | .encrypted => payload
  | .redacted =>
    redactValue py policy.headerNames policy.redactedValue policy.fieldNames none payload

end DLQPayloadPolicy

end AgoraEtl.DLQPolicy
