import AgoraEtl.Data.DataTree
import AgoraEtl.State.Backend
import Mathlib.Data.String.Basic

/-!
# Checkpoint stores

`BackendCheckpointStore` keeps checkpoints as dictionaries in a state backend, under the keys of its
namespace.  The backend is shared: deduplication stores, caches and other checkpoint stores set and delete
keys of their own in it, and drop what has expired.

Whatever they do, as long as they keep off its keys, a checkpoint store loads what was saved last under a
key and not deleted since, in memory as in SQLite (`checkpointStores_load`).

Datetimes and the conversions of values other than texts and integers are parameters.  Values are not
changed in place after they were stored, and nothing comes between the two calls of a `delete`.
-/

namespace AgoraEtl

/-- The operation leaves a value without expiry under the key alone. -/
def StateOp.Spares {V τ : Type} (key : Text) : StateOp V τ → Prop
  | .get _ => True
  | .set k _ _ => k ≠ key
  | .setIfAbsent k _ _ => k ≠ key
  | .delete k => k ≠ key
  | .countPrefix _ => True
  | .deletePrefix start => ¬ FoldedPrefix start key

/-! ## What the backends have under a key -/

/-- A state backend by what it has under its keys. -/
structure StateStore (B V τ : Type) where
  empty : B
  step : B → τ → StateOp V τ → Reply V τ × B
  found? : B → Text → Option (StoredValue V τ)
  found?_empty (key : Text) : found? empty key = none
  reply_get (b : B) (now : τ) (key : Text) :
    (∀ entry, found? b key = some entry → entry.expiresAt = none) →
      (step b now (.get key)).1 = .found (found? b key)
  found?_set (b : B) (now : τ) (key : Text) (value : V) (expiresAt : Option τ) :
    found? (step b now (.set key value expiresAt)).2 key = some ⟨value, expiresAt⟩
  found?_delete (b : B) (now : τ) (key : Text) : found? (step b now (.delete key)).2 key = none
  found?_step (b : B) (now : τ) (op : StateOp V τ) (key : Text) : op.Spares key →
    (∀ entry, found? b key = some entry → entry.expiresAt = none) →
      found? (step b now op).2 key = found? b key

variable {V τ : Type} [LinearOrder τ]

/-- What has no end does not expire. -/
theorem expired_eq_false {entry : StoredValue V τ} (h : entry.expiresAt = none) (now : τ) :
    expired now entry.expiresAt = false := by
  rw [h]
  rfl

namespace MemoryBackend

variable {m : MemoryBackend V τ} {key : Text}

omit [LinearOrder τ] in
/-- Keys that are kept are found as before. -/
theorem get?_keepKeys (keep : Text → Bool)
    (hkeep : ∀ entry, m.values.get? key = some entry → keep key = true) :
    (m.keepKeys keep).values.get? key = m.values.get? key := by
  refine (OrderedDict.get?_filterKeys _ _ _).trans ?_
  cases hentry : m.values.get? key with
  | none => exact ite_self _
  | some entry => rw [if_pos (hkeep entry hentry)]

/-- Looking a key up changes nothing under a key without expiry. -/
theorem get?_get_of_unexpiring (now : τ) (other : Text)
    (h : ∀ entry, m.values.get? key = some entry → entry.expiresAt = none) :
    (m.get now other).2.values.get? key = m.values.get? key := by
  unfold MemoryBackend.get
  cases hother : m.values.get? other with
  | none => rfl
  | some entry =>
    dsimp only
    split
    · next hexpired =>
      refine get?_keepKeys _ fun entry' hentry' => decide_eq_true fun heq => ?_
      subst heq
      obtain rfl := Option.some.inj (hother.symm.trans hentry')
      rw [expired_eq_false (h entry hentry')] at hexpired
      cases hexpired
    · rfl

/-- An operation that spares a key leaves what is under it. -/
theorem get?_step (now : τ) (op : StateOp V τ) (hspares : op.Spares key)
    (h : ∀ entry, m.values.get? key = some entry → entry.expiresAt = none) :
    (m.step now op).2.values.get? key = m.values.get? key := by
  cases op with
  | get other => exact get?_get_of_unexpiring now other h
  | set other value expiresAt => exact OrderedDict.get?_set_of_ne _ _ (Ne.symm hspares)
  | setIfAbsent other value expiresAt =>
    have hget : (m.get now other).2.values.get? key = m.values.get? key :=
      get?_get_of_unexpiring now other h
    change (m.setIfAbsent now other value expiresAt).2.values.get? key = _
    unfold setIfAbsent
    cases hreply : m.get now other with
    | mk found m' =>
      rw [hreply] at hget
      cases found with
      | some entry => exact hget
      | none => exact (OrderedDict.get?_set_of_ne _ _ (Ne.symm hspares)).trans hget
  | delete other => exact get?_keepKeys _ fun _ _ => decide_eq_true (Ne.symm hspares)
  | countPrefix start =>
    refine get?_keepKeys _ fun entry hentry => decide_eq_true fun hmem => ?_
    rw [mem_expiredKeys_iff hentry, expired_eq_false (h entry hentry)] at hmem
    cases hmem
  | deletePrefix start =>
    refine get?_keepKeys _ fun entry hentry => decide_eq_true fun hmem => hspares ?_
    obtain ⟨-, hstart⟩ := List.mem_filter.mp hmem
    exact foldedPrefix_of_isPrefix (List.isPrefixOf_iff_prefix.mp hstart)

/-- The backend in memory. -/
def stateStore : StateStore (MemoryBackend V τ) V τ where
  empty := empty
  step := step
  found? := fun m key => m.values.get? key
  found?_empty := OrderedDict.get?_empty
  reply_get := by
    intro m now key h
    refine congrArg Reply.found ?_
    unfold MemoryBackend.get
    cases hentry : m.values.get? key with
    | none => rfl
    | some entry =>
      dsimp only
      rw [if_neg (by simp [expired_eq_false (h entry hentry)])]
  found?_set := fun _ _ _ _ _ => OrderedDict.get?_set_self _ _ _
  found?_delete := by
    intro m now key
    refine (OrderedDict.get?_filterKeys _ _ _).trans ?_
    rw [if_neg (by simp)]
  found?_step := fun _ now op _ => get?_step now op

end MemoryBackend

namespace SQLiteBackend

variable {json : JsonCodec V} {t : SQLiteBackend τ} {key : Text}

omit [LinearOrder τ] in
/-- Rows that are kept are found as before. -/
theorem get?_keepRows (keep : Text × (Text × Option τ) → Bool)
    (hkeep : ∀ row, t.rows.get? key = some row → keep (key, row) = true) :
    (t.keepRows keep).rows.get? key = t.rows.get? key := by
  refine (OrderedDict.get?_filter _ _ _).trans ?_
  cases hrow : t.rows.get? key with
  | none => rfl
  | some row => rw [Option.filter_some, if_pos (hkeep row hrow)]

/-- So does an operation of the database. -/
theorem get?_step (now : τ) (op : StateOp V τ) (hspares : op.Spares key)
    (h : ∀ row, t.rows.get? key = some row → row.2 = none) :
    (t.step json now op).2.rows.get? key = t.rows.get? key := by
  have hlive : ∀ row, t.rows.get? key = some row → expired now row.2 = false := by
    intro row hrow
    rw [h row hrow]
    rfl
  cases op with
  | get other =>
    change (t.get json now other).2.rows.get? key = _
    unfold SQLiteBackend.get
    cases hother : t.rows.get? other with
    | none => rfl
    | some row =>
      dsimp only
      split
      · next hexpired =>
        refine get?_keepRows _ fun row' hrow' => decide_eq_true fun heq => ?_
        subst heq
        obtain rfl := Option.some.inj (hother.symm.trans hrow')
        rw [hlive row hrow'] at hexpired
        cases hexpired
      · rfl
  | set other value expiresAt =>
    refine (OrderedDict.get?_set_of_ne _ _ (Ne.symm hspares)).trans ?_
    rw [OrderedDict.get?_filterKeys, if_pos (decide_eq_true (Ne.symm hspares))]
  | setIfAbsent other value expiresAt =>
    change (t.setIfAbsent json now other value expiresAt).2.rows.get? key = _
    unfold SQLiteBackend.setIfAbsent insertOrIgnore
    have hkept : (t.keepRows fun row => !(decide (row.1 = other) && expired now row.2.2)).rows.get?
        key = t.rows.get? key := by
      refine get?_keepRows _ fun row hrow => ?_
      dsimp only
      rw [hlive row hrow, Bool.and_false]
      rfl
    split
    · exact hkept
    · exact (OrderedDict.get?_set_of_ne _ _ (Ne.symm hspares)).trans hkept
  | delete other => exact get?_keepRows _ fun _ _ => decide_eq_true (Ne.symm hspares)
  | countPrefix start =>
    refine get?_keepRows _ fun row hrow => ?_
    dsimp only
    rw [hlive row hrow]
    rfl
  | deletePrefix start =>
    refine get?_keepRows _ fun row hrow => ?_
    dsimp only
    rw [like_escapeLike_eq, decide_eq_false hspares]
    rfl

/-- The backend in SQLite. -/
def stateStore (json : JsonCodec V) : StateStore (SQLiteBackend τ) V τ where
  empty := empty
  step := step json
  found? := fun t key => (t.rows.get? key).map fun row => ⟨json.loads row.1, row.2⟩
  found?_empty := fun _ => rfl
  reply_get := by
    intro t now key h
    refine congrArg Reply.found ?_
    unfold SQLiteBackend.get
    cases hrow : t.rows.get? key with
    | none => rfl
    | some row =>
      rw [hrow] at h
      have hlive : expired now row.2 = false := expired_eq_false (h _ rfl) now
      dsimp only
      rw [if_neg (by simp [hlive])]
      rfl
  found?_set := by
    intro t now key value expiresAt
    change (((t.set json key value expiresAt).rows.get? key).map _) = _
    unfold SQLiteBackend.set insertOrReplace
    rw [OrderedDict.get?_set_self, Option.map_some, json.loads_dumps]
  found?_delete := by
    intro t now key
    change (((t.delete key).rows.get? key).map _) = _
    unfold SQLiteBackend.delete keepRows
    rw [OrderedDict.get?_filter]
    cases t.rows.get? key with
    | none => rfl
    | some row => simp [Option.filter_some]
  found?_step := by
    intro t now op key hspares h
    refine congrArg (Option.map _) (get?_step now op hspares fun row hrow => ?_)
    rw [hrow] at h
    exact h _ rfl

end SQLiteBackend

/-! ## Checkpoints as dictionaries -/

namespace Checkpoints

/-- A value that is no list and no dictionary. -/
inductive Scalar (O : Type) where
  | none
  | int (n : ℤ)
  | str (text : String)
  | other (value : O)
  deriving DecidableEq

/-- Values that a state backend stores. -/
abbrev StateValue (O : Type) : Type := DataTree String (Scalar O)

/-- What `int` raises. -/
inductive IntError where
  | typeError
  | valueError
  | overflowError

/-- Conversions of the standard library: of values other than texts and integers, and of datetimes. -/
structure Conversions (O D : Type) where
  str : StateValue O → String
  int : StateValue O → Except IntError ℤ
  repr : Text → String
  reprType : StateValue O → String
  isoformat : D → String
  fromisoformat : String → Option D
  fromisoformat_isoformat (recordedAt : D) : fromisoformat (isoformat recordedAt) = some recordedAt

namespace Conversions

variable {O D : Type} (python : Conversions O D)

/-- `str(value)`. -/
def toStr : StateValue O → String
  | .leaf (.str text) => text
  | value => python.str value

/-- `int(value)`. -/
def toInt : StateValue O → Except IntError ℤ
  | .leaf (.int n) => .ok n
  | value => python.int value

end Conversions

/-- Cheap filesystem fingerprint persisted beside a file resume cursor. -/
structure SourceIdentity where
  uri : String
  sizeBytes : ℤ
  modifiedTimeNs : ℤ
  device : Option ℤ
  inode : Option ℤ
  deriving DecidableEq

/-- Persisted progress snapshot for a pipeline source. -/
structure Checkpoint (O D : Type) where
  pipelineId : String
  runId : String
  source : String
  value : StateValue O
  recordedAt : D
  sourceIdentity : Option SourceIdentity

/-- What a `load` raises. -/
inductive LoadError where
  | typeError (message : String)
  | valueError
  | overflowError
  deriving DecidableEq

/-- A list of field names in a message. -/
def reprFields (names : List String) : String :=
  "[" ++ ", ".intercalate (names.map fun name => "'" ++ name ++ "'") ++ "]"

variable {O D : Type}

/-- `value.get(name)`. -/
def field (entries : List (String × StateValue O)) (name : String) : StateValue O :=
  (entries.lookup name).getD (.leaf .none)

/-- The required fields that are not there. -/
def missingFields (entries : List (String × StateValue O)) (required : List String) : List String :=
  required.filter fun name => (entries.lookup name).isNone

/-- An integer or `None`. -/
def optionalInt : Option ℤ → StateValue O
  | none => .leaf .none
  | some n => .leaf (.int n)

def SourceIdentity.toDict (identity : SourceIdentity) : StateValue O :=
  .dict [("uri", .leaf (.str identity.uri)), ("size_bytes", .leaf (.int identity.sizeBytes)),
    ("modified_time_ns", .leaf (.int identity.modifiedTimeNs)),
    ("device", optionalInt identity.device), ("inode", optionalInt identity.inode)]

section Load

variable (python : Conversions O D)

/-- An integer field of an identity. -/
def intField (value : StateValue O) : Except LoadError ℤ :=
  match python.toInt value with
  | .ok n => .ok n
  | .error .overflowError => .error .overflowError
  | .error _ => .error (.typeError "Checkpoint source_identity is corrupted: invalid field type")

/-- An integer field of an identity that may be `None`. -/
def optionalIntField : StateValue O → Except LoadError (Option ℤ)
  | .leaf .none => .ok none
  | value => some <$> intField python value

def SourceIdentity.fromDict : StateValue O → Except LoadError SourceIdentity
  | .dict entries =>
    match missingFields entries ["uri", "size_bytes", "modified_time_ns"] with
    | [] => do
      let sizeBytes ← intField python (field entries "size_bytes")
      let modifiedTimeNs ← intField python (field entries "modified_time_ns")
      let device ← optionalIntField python (field entries "device")
      let inode ← optionalIntField python (field entries "inode")
      return ⟨python.toStr (field entries "uri"), sizeBytes, modifiedTimeNs, device, inode⟩
    | missing => .error (.typeError ("Checkpoint source_identity is corrupted: " ++
        "missing required fields " ++ reprFields missing))
  | value => .error (.typeError ("Checkpoint source_identity is corrupted: expected dict, got " ++
      python.reprType value))

/-- The recorded time of a dictionary, or the time of the load. -/
def recordedAtOf (loadedAt : D) : StateValue O → Except LoadError D
  | .leaf (.str text) => (python.fromisoformat text).elim (.error .valueError) .ok
  | _ => .ok loadedAt

/-- The identity of a dictionary that has one. -/
def sourceIdentityOf : StateValue O → Except LoadError (Option SourceIdentity)
  | .leaf .none => .ok none
  | value => some <$> SourceIdentity.fromDict python value

/-- What `load` makes of the value under a key. -/
def ofPayload (loadedAt : D) (key : Text) : StateValue O → Except LoadError (Checkpoint O D)
  | .dict entries =>
    match missingFields entries ["pipeline_id", "run_id", "source"] with
    | [] => do
      let recordedAt ← recordedAtOf python loadedAt (field entries "recorded_at")
      let sourceIdentity ← sourceIdentityOf python (field entries "source_identity")
      return {
        pipelineId := python.toStr (field entries "pipeline_id")
        runId := python.toStr (field entries "run_id")
        source := python.toStr (field entries "source")
        value := field entries "value"
        recordedAt := recordedAt
        sourceIdentity := sourceIdentity }
    | missing => .error (.typeError ("Checkpoint data for key " ++ python.repr key ++
        " is corrupted: missing required fields " ++ reprFields missing))
  | value => .error (.typeError ("Checkpoint data for key " ++ python.repr key ++
      " is corrupted: expected dict, got " ++ python.reprType value))

/-- The dictionary that `save` stores. -/
def Checkpoint.payload (checkpoint : Checkpoint O D) : StateValue O :=
  .dict [("pipeline_id", .leaf (.str checkpoint.pipelineId)),
    ("run_id", .leaf (.str checkpoint.runId)), ("source", .leaf (.str checkpoint.source)),
    ("value", checkpoint.value),
    ("recorded_at", .leaf (.str (python.isoformat checkpoint.recordedAt))),
    ("source_identity", checkpoint.sourceIdentity.elim (.leaf .none) SourceIdentity.toDict)]

variable {python}

/-- An optional integer is read as it was written. -/
theorem optionalIntField_optionalInt (n : Option ℤ) :
    optionalIntField python (optionalInt n) = .ok n := by
  cases n <;> rfl

/-- An identity is read back from its dictionary. -/
theorem fromDict_toDict (identity : SourceIdentity) :
    SourceIdentity.fromDict python identity.toDict = .ok identity := by
  have hdevice : optionalIntField python (optionalInt identity.device) = .ok identity.device :=
    optionalIntField_optionalInt _
  have hinode : optionalIntField python (optionalInt identity.inode) = .ok identity.inode :=
    optionalIntField_optionalInt _
  simp [SourceIdentity.fromDict, SourceIdentity.toDict, missingFields, field,
    OrderedDict.lookup_cons_eq_ite, intField, Conversions.toInt, Conversions.toStr, hdevice, hinode,
    bind, Except.bind, pure, Except.pure]

/-- So is the identity of a source. -/
theorem sourceIdentityOf_payload (identity : Option SourceIdentity) :
    sourceIdentityOf python (identity.elim (.leaf .none) SourceIdentity.toDict) = .ok identity := by
  cases identity with
  | none => rfl
  | some identity =>
    change some <$> SourceIdentity.fromDict python identity.toDict = _
    rw [fromDict_toDict]
    rfl

/-- A checkpoint is read back from the dictionary that is stored for it. -/
theorem ofPayload_payload (loadedAt : D) (key : Text) (checkpoint : Checkpoint O D) :
    ofPayload python loadedAt key (checkpoint.payload python) = .ok checkpoint := by
  have hidentity : sourceIdentityOf python
      (checkpoint.sourceIdentity.elim (.leaf .none) SourceIdentity.toDict) =
        .ok checkpoint.sourceIdentity := sourceIdentityOf_payload _
  have hrecorded := python.fromisoformat_isoformat checkpoint.recordedAt
  simp [ofPayload, Checkpoint.payload, missingFields, field, OrderedDict.lookup_cons_eq_ite,
    recordedAtOf, Conversions.toStr, hidentity, hrecorded, bind, Except.bind, pure, Except.pure]

end Load

/-! ## Stores over a backend -/

/-- An operation of a checkpoint store, or one on its backend by somebody else. -/
inductive CheckpointOp (O D τ : Type) where
  | load (loadedAt : D) (key : Text)
  | save (key : Text) (checkpoint : Checkpoint O D)
  | delete (key : Text)
  | other (op : StateOp (StateValue O) τ)

/-- `f"{namespace}:{key}"`. -/
def fullKey (ns key : Text) : Text := ns ++ ':' :: key

/-- Within one namespace keys are told apart. -/
theorem fullKey_injective (ns : Text) : Function.Injective (fullKey ns) :=
  fun _ _ h => List.tail_eq_of_cons_eq (List.append_cancel_left h)

/-- Checkpoint store backed by a generic state backend. -/
structure BackendCheckpointStore (B O τ : Type) where
  backend : StateStore B (StateValue O) τ
  ns : Text

namespace BackendCheckpointStore

variable {B τ : Type} (s : BackendCheckpointStore B O τ) (python : Conversions O D)

def load (b : B) (now : τ) (loadedAt : D) (key : Text) :
    Except LoadError (Option (Checkpoint O D)) × B :=
  match s.backend.step b now (.get (fullKey s.ns key)) with
  | (.found (some entry), b') => (some <$> ofPayload python loadedAt key entry.value, b')
  | (_, b') => (.ok none, b')

def save (b : B) (now : τ) (key : Text) (checkpoint : Checkpoint O D) : B :=
  (s.backend.step b now (.set (fullKey s.ns key) (checkpoint.payload python) none)).2

def delete (b : B) (now : τ) (key : Text) : Bool × B :=
  match s.backend.step b now (.get (fullKey s.ns key)) with
  | (.found (some _), b') => (true, (s.backend.step b' now (.delete (fullKey s.ns key))).2)
  | (_, b') => (false, b')

/-- One operation, at the given clock reading. -/
def step (b : B) (now : τ) : CheckpointOp O D τ → B
  | .load loadedAt key => (s.load python b now loadedAt key).2
  | .save key checkpoint => s.save python b now key checkpoint
  | .delete key => (s.delete b now key).2
  | .other op => (s.backend.step b now op).2

/-- Operations at their clock readings. -/
def run (b : B) (ops : List (τ × CheckpointOp O D τ)) : B :=
  ops.foldl (fun b timed => s.step python b timed.1 timed.2) b

end BackendCheckpointStore

/-- Nobody else touches the key of the backend. -/
def CheckpointOp.Spares {τ : Type} (fullKey : Text) : CheckpointOp O D τ → Prop
  | .other op => op.Spares fullKey
  | _ => True

/-- The checkpoint that was saved last, after one more operation. -/
def CheckpointOp.lastSaved {τ : Type} (key : Text) (last : Option (Checkpoint O D)) :
    CheckpointOp O D τ → Option (Checkpoint O D)
  | .save key' checkpoint => if key' = key then some checkpoint else last
  | .delete key' => if key' = key then none else last
  | _ => last

/-- The checkpoint that was saved last under the key and not deleted since. -/
def lastSaved {τ : Type} (key : Text) (ops : List (τ × CheckpointOp O D τ)) :
    Option (Checkpoint O D) :=
  ops.foldl (fun last timed => timed.2.lastSaved key last) none

namespace BackendCheckpointStore

variable {B τ : Type} {s : BackendCheckpointStore B O τ} {python : Conversions O D} {b : B}
  {key : Text} {last : Option (Checkpoint O D)}

variable (s python key last b) in
/-- The backend has the dictionary of the checkpoint under the key, or nothing. -/
def Holds : Prop :=
  s.backend.found? b (fullKey s.ns key) = last.map fun checkpoint => ⟨checkpoint.payload python, none⟩

/-- What the store holds does not expire. -/
theorem Holds.expiresAt (h : s.Holds python b key last) :
    ∀ entry, s.backend.found? b (fullKey s.ns key) = some entry → entry.expiresAt = none := by
  intro entry hentry
  rw [h, Option.map_eq_some_iff] at hentry
  obtain ⟨checkpoint, -, rfl⟩ := hentry
  rfl

/-- Looking the key up finds the dictionary. -/
theorem Holds.reply_get (h : s.Holds python b key last) (now : τ) :
    (s.backend.step b now (.get (fullKey s.ns key))).1 =
      .found (last.map fun checkpoint => ⟨checkpoint.payload python, none⟩) :=
  (s.backend.reply_get b now _ h.expiresAt).trans (congrArg Reply.found h)

/-- An operation on the backend that spares the key leaves what it has there. -/
theorem Holds.backendStep (h : s.Holds python b key last) (now : τ)
    {op : StateOp (StateValue O) τ} (hspares : op.Spares (fullKey s.ns key)) :
    s.Holds python (s.backend.step b now op).2 key last :=
  (s.backend.found?_step b now op _ hspares h.expiresAt).trans h

/-- A load is one read of the backend. -/
theorem load_snd (b : B) (now : τ) (loadedAt : D) (key : Text) :
    (s.load python b now loadedAt key).2 = (s.backend.step b now (.get (fullKey s.ns key))).2 := by
  unfold load
  split
  · next heq => rw [heq]
  · next heq => rw [heq]

/-- A deletion under another key leaves what the backend has under this one. -/
theorem Holds.delete_of_ne (h : s.Holds python b key last) (now : τ) {other : Text}
    (hne : other ≠ key) : s.Holds python (s.delete b now other).2 key last := by
  have hget : s.Holds python (s.backend.step b now (.get (fullKey s.ns other))).2 key last :=
    h.backendStep now trivial
  unfold delete
  split
  · next heq =>
    rw [heq] at hget
    exact hget.backendStep now ((fullKey_injective s.ns).ne hne)
  · next heq =>
    rw [heq] at hget
    exact hget

/-- After a deletion the backend has nothing under the key. -/
theorem Holds.delete_self (h : s.Holds python b key last) (now : τ) :
    s.Holds python (s.delete b now key).2 key none := by
  have hget : s.Holds python (s.backend.step b now (.get (fullKey s.ns key))).2 key last :=
    h.backendStep now trivial
  have hreply := h.reply_get now
  unfold delete
  split
  · exact s.backend.found?_delete _ _ _
  · next hnone heq =>
    rw [heq] at hget hreply
    cases last with
    | none => exact hget
    | some checkpoint => exact absurd hreply (hnone _)

/-- The step lemma: after every operation that spares the key the backend has what was saved last. -/
theorem Holds.step (h : s.Holds python b key last) (now : τ) {op : CheckpointOp O D τ}
    (hspares : op.Spares (fullKey s.ns key)) :
    s.Holds python (s.step python b now op) key (op.lastSaved key last) := by
  cases op with
  | load loadedAt other =>
    change s.Holds python (s.load python b now loadedAt other).2 key last
    rw [load_snd]
    exact h.backendStep now trivial
  | save other checkpoint =>
    change s.Holds python (s.save python b now other checkpoint) key
      (if other = key then some checkpoint else last)
    by_cases hother : other = key
    · subst hother
      rw [if_pos rfl]
      exact s.backend.found?_set _ _ _ _ _
    · rw [if_neg hother]
      exact h.backendStep now ((fullKey_injective s.ns).ne hother)
  | delete other =>
    change s.Holds python (s.delete b now other).2 key (if other = key then none else last)
    by_cases hother : other = key
    · subst hother
      rw [if_pos rfl]
      exact h.delete_self now
    · rw [if_neg hother]
      exact h.delete_of_ne now hother
  | other op => exact h.backendStep now hspares

/-- The run lemma, by induction over the operations. -/
theorem Holds.run (h : s.Holds python b key last) {ops : List (τ × CheckpointOp O D τ)}
    (hspares : ∀ timed ∈ ops, timed.2.Spares (fullKey s.ns key)) :
    s.Holds python (s.run python b ops) key
      (ops.foldl (fun last timed => timed.2.lastSaved key last) last) := by
  induction ops generalizing b last with
  | nil => exact h
  | cons timed ops ih =>
    rw [List.forall_mem_cons] at hspares
    exact ih (h.step timed.1 hspares.1) hspares.2

/-- What the backend has is read back. -/
theorem Holds.load (h : s.Holds python b key last) (now : τ) (loadedAt : D) :
    (s.load python b now loadedAt key).1 = .ok last := by
  have hreply := h.reply_get now
  unfold BackendCheckpointStore.load
  cases hget : s.backend.step b now (.get (fullKey s.ns key)) with
  | mk reply b' =>
    rw [hget] at hreply
    subst hreply
    cases last with
    | none => rfl
    | some checkpoint =>
      change some <$> ofPayload python loadedAt key (checkpoint.payload python) = _
      rw [ofPayload_payload]
      rfl

/-- A deletion says whether there is something to delete. -/
theorem Holds.delete_fst (h : s.Holds python b key last) (now : τ) :
    (s.delete b now key).1 = last.isSome := by
  have hreply := h.reply_get now
  unfold BackendCheckpointStore.delete
  cases hget : s.backend.step b now (.get (fullKey s.ns key)) with
  | mk reply b' =>
    rw [hget] at hreply
    subst hreply
    cases last <;> rfl

variable (s python key) in
/-- After the operations the store loads what was saved last under the key, if anything, and a deletion
says whether that is so. -/
def Serves (ops : List (τ × CheckpointOp O D τ)) : Prop :=
  ∀ now loadedAt,
    (s.load python (s.run python s.backend.empty ops) now loadedAt key).1 = .ok (lastSaved key ops) ∧
      (s.delete (s.run python s.backend.empty ops) now key).1 = (lastSaved key ops).isSome

/-- The store serves a key while others use the backend and spare it. -/
theorem serves {ops : List (τ × CheckpointOp O D τ)}
    (hspares : ∀ timed ∈ ops, timed.2.Spares (fullKey s.ns key)) : s.Serves python key ops := by
  have hempty : s.Holds python s.backend.empty key none := s.backend.found?_empty _
  have hrun : s.Holds python (s.run python s.backend.empty ops) key (lastSaved key ops) :=
    hempty.run hspares
  exact fun now loadedAt => ⟨hrun.load now loadedAt, hrun.delete_fst now⟩

end BackendCheckpointStore

variable {τ : Type} [LinearOrder τ]

/-- `InMemoryCheckpointStore(namespace)`. -/
def inMemoryCheckpointStore (ns : Text) :
    BackendCheckpointStore (MemoryBackend (StateValue O) τ) O τ :=
  ⟨MemoryBackend.stateStore, ns⟩

/-- `SQLiteCheckpointStore(path, namespace)`. -/
def sqliteCheckpointStore (json : JsonCodec (StateValue O)) (ns : Text) :
    BackendCheckpointStore (SQLiteBackend τ) O τ :=
  ⟨SQLiteBackend.stateStore json, ns⟩

/-- In memory as in SQLite, a checkpoint store loads the checkpoint that was saved last under the key
and not deleted since, whatever else is done with its backend that spares the key. -/
theorem checkpointStores_load (python : Conversions O D) {ns key : Text}
    {ops : List (τ × CheckpointOp O D τ)}
    (hspares : ∀ timed ∈ ops, timed.2.Spares (fullKey ns key)) :
    (inMemoryCheckpointStore ns).Serves python key ops ∧
      ∀ json : JsonCodec (StateValue O), (sqliteCheckpointStore json ns).Serves python key ops :=
  ⟨BackendCheckpointStore.serves hspares, fun _ => BackendCheckpointStore.serves hspares⟩

/-- Datetimes as their ISO texts, where no other value is converted. -/
def isoTexts : Conversions Empty String where
  str := fun _ => ""
  int := fun _ => .error .typeError
  repr := String.ofList
  reprType := fun _ => ""
  isoformat := id
  fromisoformat := some
  fromisoformat_isoformat := fun _ => rfl

/-- Line 12 of a file. -/
def lineTwelve : Checkpoint Empty String where
  pipelineId := "orders"
  runId := "r1"
  source := "csv"
  value := .leaf (.int 12)
  recordedAt := "2026-01-01T00:00:00+00:00"
  sourceIdentity := some ⟨"file:///orders.csv", 512, 7, some 1, none⟩

/-- The checkpoint is loaded after a deduplication store dropped its keys from the backend. -/
theorem checkpointStores_load_lineTwelve :
    let store : BackendCheckpointStore (MemoryBackend (StateValue Empty) ℕ) Empty ℕ :=
      inMemoryCheckpointStore ['c']
    (store.load isoTexts (store.run isoTexts .empty
      [(1, .save ['o'] lineTwelve), (2, .other (.set ['d', ':', '1'] (.leaf .none) (some 5))),
        (9, .other (.countPrefix ['d', ':'])), (9, .other (.deletePrefix ['d', ':']))])
      10 lineTwelve.recordedAt ['o']).1 = .ok (some lineTwelve) := by
  refine ((checkpointStores_load isoTexts ?_).1 10 lineTwelve.recordedAt).1
  rw [List.forall_mem_cons, List.forall_mem_cons, List.forall_mem_cons, List.forall_mem_singleton]
  refine ⟨trivial, ?_, trivial, ?_⟩
  · change ['d', ':', '1'] ≠ fullKey ['c'] ['o']
    decide
  · change ¬ FoldedPrefix ['d', ':'] (fullKey ['c'] ['o'])
    decide

end Checkpoints

end AgoraEtl
