import AgoraEtl.Data.DataTree
import AgoraEtl.Sources.File.Text

/-!
# Configuration documents and their overlays

A configuration document has pipelines, and profiles and environments that lay their own settings over
them.  `resolveConfigDocument` selects one pipeline and merges its layers; `resolveWorkerConfigDocument`
does so for every pipeline of the document.  The schemas of the validation library are parameters.

What a merged configuration comes to is said by `layersOf`: at each path it has the value of the topmost
layer that claims it, where the environment lies over the profile, this one over the pipeline, and the
defaults are at the bottom.
-/

namespace AgoraEtl.Config

open DataTree

variable {O R : Type}

/-- A value that is neither a dictionary nor a list. -/
inductive Scalar (O : Type) where
  | none
  | str (s : String)
  | bool (b : Bool)
  | other (o : O)

abbrev ConfigTree (O : Type) : Type := DataTree String (Scalar O)

/-- A dictionary of a configuration; no key is in it twice, at any depth. -/
structure ConfigDict (O : Type) where
  entries : List (String × ConfigTree O)
  wf : (DataTree.dict entries).Wf

namespace ConfigDict

def tree (d : ConfigDict O) : ConfigTree O := .dict d.entries

def empty : ConfigDict O := ⟨[], List.nodup_nil, trivial⟩

/-- `deep_merge`. -/
def deepMerge (base overlay : ConfigDict O) : ConfigDict O :=
  ⟨mergeEntries base.entries overlay.entries, wf_overlay base.wf overlay.wf⟩

/-- A dictionary with one string in it. -/
def ofStr (key value : String) : ConfigDict O :=
  ⟨[(key, .leaf (.str value))], by simp [Wf, WfEntries]⟩

/-- `setdefault` of a string. -/
def setDefault (d : ConfigDict O) (key value : String) : ConfigDict O :=
  ⟨if d.entries.lookup key = none then OrderedDict.setEntry d.entries key (.leaf (.str value))
    else d.entries, by
    split
    · exact ⟨OrderedDict.nodup_setEntry d.wf.1 _ _, wfEntries_setEntry d.wf.2 _ trivial⟩
    · exact d.wf⟩

end ConfigDict

/-! ### Documents -/

/-- A name that a validator has stripped and found not to be empty. -/
structure SelectorName where
  name : String
  stripped : File.strip name = name
  nonempty : name ≠ ""

inductive AccelerationPolicy where
  | auto
  | off
  | required

inductive PerformanceProfile where
  | balanced
  | throughput
  | lowLatency

structure PerformanceConfig where
  acceleration : AccelerationPolicy := .auto
  profile : PerformanceProfile := .balanced

def AccelerationPolicy.text : AccelerationPolicy → String
  | auto => "auto"
  | off => "off"
  | required => "required"

def PerformanceProfile.text : PerformanceProfile → String
  | balanced => "balanced"
  | throughput => "throughput"
  | lowLatency => "low_latency"

/-- `model_dump` of a `PerformanceConfig`. -/
def PerformanceConfig.modelDump (config : PerformanceConfig) : ConfigDict O :=
  (ConfigDict.ofStr "acceleration" config.acceleration.text).deepMerge
    (ConfigDict.ofStr "profile" config.profile.text)

/-- Default selectors. -/
structure ConfigDefaults where
  pipeline : Option SelectorName := none
  profile : Option SelectorName := none
  environment : Option SelectorName := none

/-- What one profile or environment lays over pipelines and the worker. -/
structure OverlayScope (O : Type) where
  pipelines : OrderedDict String (ConfigDict O)
  worker : Option (ConfigDict O)

/-- A validated document; `worker` is the dump of its worker section. -/
structure ConfigDocument (O : Type) where
  defaults : ConfigDefaults
  performance : Option PerformanceConfig
  worker : Option (ConfigDict O)
  pipelines : OrderedDict String (ConfigDict O)
  profiles : OrderedDict String (OverlayScope O)
  environments : OrderedDict String (OverlayScope O)
  pipelines_nonempty : pipelines.keys ≠ []

/-- The message of a `ConfigError`. -/
abbrev ConfigError := String

/-- The schemas: what they make of a document, a pipeline and a worker section, or how they reject it. -/
structure Schemas (R O : Type) where
  document : R → Except ConfigError (ConfigDocument O)
  pipeline : ConfigDict O → Except ConfigError (ConfigDict O)
  worker : ConfigDict O → Except ConfigError (ConfigDict O)

structure ResolvedPipelineConfig (O : Type) where
  pipelineName : String
  profileName : Option String
  environmentName : Option String
  pipelineConfig : ConfigDict O

structure ResolvedWorkerConfig (O : Type) where
  profileName : Option String
  environmentName : Option String
  workerConfig : ConfigDict O
  pipelines : List (ResolvedPipelineConfig O)

/-! ### Selection -/

/-- `", ".join(sorted(names))`. -/
def joinSorted (names : List String) : String := ", ".intercalate (names.insertionSort (· ≤ ·))

/-- `_select_optional_overlay`. -/
def selectOptionalOverlay (explicitValue : Option String) (defaultValue : Option SelectorName) :
    Except ConfigError (Option String) :=
  match explicitValue with
  | some value =>
    if File.strip value = "" then .error "Selector values cannot be empty."
    else .ok (some (File.strip value))
  | none => .ok (defaultValue.map SelectorName.name)

/-- `_select_name`. -/
def selectName (explicitValue : Option String) (defaultValue : Option SelectorName)
    (availableNames : List String) (label : String) : Except ConfigError String :=
  match selectOptionalOverlay explicitValue defaultValue, availableNames.insertionSort (· ≤ ·) with
  | .error message, _ => .error message
  | .ok (some selected), _ => .ok selected
  | .ok none, [name] => .ok name
  | .ok none, _ => .error s!"Config defines multiple {label}s. Select one: {joinSorted availableNames}"

/-! ### Overlays -/

/-- `_apply_named_overlay`. -/
def applyNamedOverlay (config : ConfigDict O) (label : String) (selectedName : Option String)
    (scopes : OrderedDict String (OverlayScope O)) (pipelineName : String) :
    Except ConfigError (ConfigDict O) :=
  match selectedName with
  | none => .ok config
  | some name =>
    match scopes.get? name with
    | none =>
      let available := if joinSorted scopes.keys = "" then "none" else joinSorted scopes.keys
      .error s!"Unknown {label} '{name}'. Available: {available}"
    | some scope =>
      match scope.pipelines.get? pipelineName with
      | none => .ok config
      | some overlay => .ok (config.deepMerge overlay)

/-- `_apply_worker_overlay`. -/
def applyWorkerOverlay (config : ConfigDict O) (selectedName : Option String)
    (scopes : OrderedDict String (OverlayScope O)) : Except ConfigError (ConfigDict O) :=
  match selectedName with
  | none => .ok config
  | some name =>
    match scopes.get? name with
    | none =>
      let available := if joinSorted scopes.keys = "" then "none" else joinSorted scopes.keys
      .error s!"Unknown overlay '{name}'. Available: {available}"
    | some scope =>
      match scope.worker with
      | none => .ok config
      | some overlay => .ok (config.deepMerge overlay)

/-- `_ensure_pipeline_has_sinks`. -/
def ensurePipelineHasSinks (config : ConfigDict O) : Except ConfigError Unit :=
  match config.entries.lookup "sinks" with
  | some (.list (_ :: _)) => .ok ()
  | _ => .error "Invalid pipeline:\n  - sinks: At least one sink must be defined."

/-- The dump of the performance section of the document, as far as there is one. -/
def ConfigDocument.documentDefaults (document : ConfigDocument O) : ConfigDict O :=
  match document.performance with
  | none => .empty
  | some performance =>
    ⟨[("performance", performance.modelDump.tree)], by simp, performance.modelDump.wf, trivial⟩

namespace Schemas

variable (schemas : Schemas R O)

/-- `validate_pipeline_config`. -/
def validatePipelineConfig (config : ConfigDict O) : Except ConfigError (ConfigDict O) := do
  ensurePipelineHasSinks config
  schemas.pipeline config

/-- `resolve_config_document`. -/
def resolveConfigDocument (config : R) (pipelineName profileName environmentName : Option String) :
    Except ConfigError (ResolvedPipelineConfig O) := do
  let document ← schemas.document config
  let selectedPipeline ← selectName pipelineName document.defaults.pipeline document.pipelines.keys
    "pipeline"
  match document.pipelines.get? selectedPipeline with
  | none =>
    let available := joinSorted document.pipelines.keys
    .error s!"Pipeline '{selectedPipeline}' was not found. Available: {available}"
  | some basePipeline =>
    let merged := document.documentDefaults.deepMerge basePipeline
    let selectedProfile ← selectOptionalOverlay profileName document.defaults.profile
    let selectedEnvironment ← selectOptionalOverlay environmentName document.defaults.environment
    let merged ← applyNamedOverlay merged "profile" selectedProfile document.profiles selectedPipeline
    let merged ← applyNamedOverlay merged "environment" selectedEnvironment document.environments
      selectedPipeline
    let pipelineConfig ← schemas.validatePipelineConfig
      (merged.setDefault "pipeline_id" selectedPipeline)
    pure ⟨selectedPipeline, selectedProfile, selectedEnvironment, pipelineConfig⟩

/-- The loop of `resolve_worker_config_document` over the names of the pipelines. -/
def resolveScheduled (config : R) (profileName environmentName : Option String) :
    List String → Except ConfigError (List (ResolvedPipelineConfig O))
  | [] => .ok []
  | pipelineName :: pipelineNames => do
    let resolved ← schemas.resolveConfigDocument config (some pipelineName) profileName environmentName
    if resolved.pipelineConfig.entries.lookup "schedule" = none then
      .error (s!"Pipeline '{pipelineName}' is missing schedule. " ++
        "Config-driven workers require [pipelines.<name>.schedule].")
    else do
      let rest ← resolveScheduled config profileName environmentName pipelineNames
      pure (resolved :: rest)

/-- The worker section is validated, unless it is empty. -/
def validateWorkerConfig (config : ConfigDict O) : Except ConfigError (ConfigDict O) :=
  if config.entries = [] then .ok config else schemas.worker config

/-- `resolve_worker_config_document`. -/
def resolveWorkerConfigDocument (config : R) (profileName environmentName : Option String) :
    Except ConfigError (ResolvedWorkerConfig O) := do
  let document ← schemas.document config
  let selectedProfile ← selectOptionalOverlay profileName document.defaults.profile
  let selectedEnvironment ← selectOptionalOverlay environmentName document.defaults.environment
  let workerConfig := document.worker.getD .empty
  let workerConfig ← applyWorkerOverlay workerConfig selectedProfile document.profiles
  let workerConfig ← applyWorkerOverlay workerConfig selectedEnvironment document.environments
  let workerConfig ← schemas.validateWorkerConfig workerConfig
  let pipelines ← schemas.resolveScheduled config selectedProfile selectedEnvironment
    document.pipelines.keys
  pure ⟨selectedProfile, selectedEnvironment, workerConfig, pipelines⟩

end Schemas

end AgoraEtl.Config
