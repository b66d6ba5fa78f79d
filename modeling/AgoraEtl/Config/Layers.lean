import AgoraEtl.Config.Documents
import Mathlib.Data.List.DropRight

/-!
# The layers of a resolved configuration

A resolved pipeline configuration is the validated form of a stack of layers.
`resolveConfigDocument_eq_ok_iff` says when a document resolves; `resolveConfigDocument_valueAt` says what
the merged configuration has at each path.  A worker resolves every pipeline as it would be resolved on
its own.
-/

namespace AgoraEtl.Config

open DataTree

variable {O R : Type}

namespace ConfigDict

/-- Dictionaries laid over one another, the last one on top. -/
def stack (base : ConfigDict O) (layers : List (ConfigDict O)) : ConfigDict O :=
  layers.foldl deepMerge base

/-- The tree of a stack is that of its layers laid over one another. -/
theorem tree_stack (base : ConfigDict O) (layers : List (ConfigDict O)) :
    (base.stack layers).tree = (layers.map tree).foldl overlay base.tree := by
  induction layers generalizing base with
  | nil => rfl
  | cons layer layers ih => exact ih (base.deepMerge layer)

/-- The layers are well formed. -/
theorem wf_tree {layers : List (ConfigDict O)} : ∀ t ∈ layers.map tree, t.Wf := by
  intro t ht
  obtain ⟨layer, -, rfl⟩ := List.mem_map.mp ht
  exact layer.wf

/-- A stack has at each path the value of the topmost layer that claims it. -/
theorem valueAt_stack (base : ConfigDict O) (layers : List (ConfigDict O)) (path : List String) :
    (base.stack layers).tree.valueAt path = topmost ((base :: layers).map tree).reverse path := by
  rw [tree_stack, valueAt_foldl_overlay _ wf_tree, List.map_cons, List.reverse_cons]

/-- A key is missing in a stack if it is missing in every layer. -/
theorem lookup_stack_eq_none {base : ConfigDict O} {layers : List (ConfigDict O)} {key : String} :
    (base.stack layers).entries.lookup key = none ↔
      ∀ d ∈ base :: layers, d.entries.lookup key = none := by
  induction layers generalizing base with
  | nil => simp [stack]
  | cons layer layers ih =>
    have hmerged : (base.deepMerge layer).entries.lookup key = none ↔
        layer.entries.lookup key = none ∧ base.entries.lookup key = none := by
      rw [← Option.not_isSome_iff_eq_none, deepMerge, isSome_lookup_mergeEntries layer.wf.1,
        Bool.or_eq_true, not_or, Option.not_isSome_iff_eq_none, Option.not_isSome_iff_eq_none]
    rw [stack, List.foldl_cons, ← stack, ih]
    simp only [List.forall_mem_cons, hmerged]
    tauto

/-- A default is set under a key that is missing. -/
theorem lookup_setDefault (d : ConfigDict O) (key value key' : String) :
    (d.setDefault key value).entries.lookup key' =
      if key' = key ∧ d.entries.lookup key = none then some (.leaf (.str value))
      else d.entries.lookup key' := by
  have hentries : (d.setDefault key value).entries =
      if d.entries.lookup key = none then OrderedDict.setEntry d.entries key (.leaf (.str value))
      else d.entries := rfl
  rw [hentries]
  by_cases hnone : d.entries.lookup key = none
  · rw [if_pos hnone, OrderedDict.lookup_setEntry]
    simp [hnone]
  · rw [if_neg hnone, if_neg fun h => hnone h.2]

/-- A default lies below all layers. -/
theorem valueAt_setDefault_stack (base : ConfigDict O) (layers : List (ConfigDict O))
    (key value : String) (path : List String) :
    ((base.stack layers).setDefault key value).tree.valueAt path =
      topmost (((base :: layers).map tree).reverse ++ [(ofStr key value).tree]) path := by
  have hstack := valueAt_stack base layers path
  rw [topmost_append]
  cases path with
  | nil => 
    rw [if_pos ⟨base.tree, by simp, by simp [claims]⟩, ← hstack]
    rfl
  | cons first path =>
    have hclaims : ∀ d : ConfigDict O, d.entries.lookup first = none →
        d.tree.claims (first :: path) = false := by
      intro d hd
      rw [tree, claims, hd]
    by_cases hset : first = key ∧ (base.stack layers).entries.lookup key = none
    · -- no layer has the key, so that the default has its say
      obtain ⟨rfl, hnone⟩ := hset
      rw [if_neg, tree, valueAt, lookup_setDefault, if_pos ⟨rfl, hnone⟩, tree, ofStr, valueAt,
        OrderedDict.lookup_cons_eq_ite, if_pos rfl]
      rintro ⟨_, hlayer, hclaimed⟩
      obtain ⟨d, hd, rfl⟩ := List.mem_map.mp (List.mem_reverse.mp hlayer)
      exact absurd hclaimed (by rw [hclaims d (lookup_stack_eq_none.mp hnone d hd)]; simp)
    · have hvalue : ((base.stack layers).setDefault key value).tree.valueAt (first :: path) =
          topmost ((base :: layers).map tree).reverse (first :: path) := by
        rw [← hstack, tree, valueAt, lookup_setDefault, if_neg hset]
        rfl
      rw [hvalue]
      split
      · rfl
      · -- no layer claims the path, and neither does the default
        rename_i hnot
        rw [topmost_of_not_claims fun layer hlayer =>
          Bool.not_eq_true _ ▸ fun h => hnot ⟨layer, hlayer, h⟩]
        rw [tree, ofStr, valueAt, OrderedDict.lookup_cons_eq_ite]
        by_cases hfirst : first = key
        · subst hfirst
          cases path with
          | cons next path => rw [if_pos rfl]; rfl
          | nil =>
            refine absurd ⟨rfl, lookup_stack_eq_none.mpr fun d hd => ?_⟩ hset
            by_contra hsome
            obtain ⟨found, hfound⟩ := Option.ne_none_iff_exists'.mp hsome
            refine hnot ⟨d.tree, List.mem_reverse.mpr (List.mem_map_of_mem hd), ?_⟩
            rw [tree, claims, hfound]
            cases found <;> rfl
        · rw [if_neg hfirst]
          rfl

end ConfigDict

namespace ConfigDocument

variable (document : ConfigDocument O)

/-- What a selected profile or environment lays over the pipeline. -/
def overlaysOf (scopes : OrderedDict String (OverlayScope O)) (selectedName : Option String)
    (pipelineName : String) : List (ConfigDict O) :=
  ((selectedName.bind scopes.get?).bind fun scope => scope.pipelines.get? pipelineName).toList

/-- The layers of a pipeline over the document's defaults, the last one on top. -/
def layersOf (pipelineName : String) (profileName environmentName : Option String) :
    List (ConfigDict O) :=
  (document.pipelines.get? pipelineName).toList ++
    overlaysOf document.profiles profileName pipelineName ++
    overlaysOf document.environments environmentName pipelineName

/-- The merged configuration, before it is validated. -/
def merged (pipelineName : String) (profileName environmentName : Option String) : ConfigDict O :=
  (document.documentDefaults.stack
    (document.layersOf pipelineName profileName environmentName)).setDefault "pipeline_id" pipelineName

/-- All layers of a pipeline, the topmost one first. -/
def layerTrees (pipelineName : String) (profileName environmentName : Option String) :
    List (ConfigTree O) :=
  ((document.documentDefaults :: document.layersOf pipelineName profileName environmentName).map
    ConfigDict.tree).reverse ++ [(ConfigDict.ofStr "pipeline_id" pipelineName).tree]

variable {document}

/-- The merged configuration is put together as the source does it. -/
theorem merged_eq {pipelineName : String} {base : ConfigDict O}
    (hbase : document.pipelines.get? pipelineName = some base)
    (profileName environmentName : Option String) :
    document.merged pipelineName profileName environmentName =
      (((document.documentDefaults.deepMerge base).stack
        (overlaysOf document.profiles profileName pipelineName)).stack
        (overlaysOf document.environments environmentName pipelineName)).setDefault "pipeline_id"
          pipelineName := by
  unfold merged layersOf ConfigDict.stack
  rw [hbase, List.foldl_append, List.foldl_append]
  rfl

end ConfigDocument

/-- The scope exists, if one is selected. -/
def Selects (scopes : OrderedDict String (OverlayScope O)) (selectedName : Option String) : Prop :=
  ∀ name, selectedName = some name → name ∈ scopes.keys

/-- An overlay is applied if its scope exists. -/
theorem applyNamedOverlay_eq_ok_iff {config result : ConfigDict O} {label : String}
    {selectedName : Option String} {scopes : OrderedDict String (OverlayScope O)}
    {pipelineName : String} :
    applyNamedOverlay config label selectedName scopes pipelineName = .ok result ↔
      Selects scopes selectedName ∧
        result = config.stack (ConfigDocument.overlaysOf scopes selectedName pipelineName) := by
  unfold applyNamedOverlay ConfigDocument.overlaysOf Selects
  cases selectedName with
  | none => simp [ConfigDict.stack, eq_comm]
  | some name =>
    have hknown : name ∈ scopes.keys ↔ scopes.get? name ≠ none := by
      rw [Ne, OrderedDict.get?_eq_none_iff, not_not]
    cases hscope : scopes.get? name with
    | none => simp [hknown, hscope]
    | some scope =>
      cases hoverlay : scope.pipelines.get? pipelineName with
      | none => simp [hknown, hscope, hoverlay, ConfigDict.stack, eq_comm]
      | some overlay => simp [hknown, hscope, hoverlay, ConfigDict.stack, eq_comm]

/-- When a document resolves to a configuration for a pipeline. -/
structure ConfigDocument.Resolves (document : ConfigDocument O) (schemas : Schemas R O)
    (pipelineName profileName environmentName : Option String)
    (resolved : ResolvedPipelineConfig O) : Prop where
  pipeline : selectName pipelineName document.defaults.pipeline document.pipelines.keys "pipeline" =
    .ok resolved.pipelineName
  found : resolved.pipelineName ∈ document.pipelines.keys
  profile : selectOptionalOverlay profileName document.defaults.profile = .ok resolved.profileName
  environment : selectOptionalOverlay environmentName document.defaults.environment =
    .ok resolved.environmentName
  profileFound : Selects document.profiles resolved.profileName
  environmentFound : Selects document.environments resolved.environmentName
  validated : schemas.validatePipelineConfig
    (document.merged resolved.pipelineName resolved.profileName resolved.environmentName) =
      .ok resolved.pipelineConfig

/-- A sequence succeeds if both of its parts do. -/
theorem bind_eq_ok_iff {ε α β : Type} {x : Except ε α} {f : α → Except ε β} {b : β} :
    (x >>= f) = .ok b ↔ ∃ a, x = .ok a ∧ f a = .ok b := by
  cases x with
  | ok a => simp [bind, Except.bind]
  | error e => simp [bind, Except.bind]

namespace Schemas

variable (schemas : Schemas R O)

/-- When a document resolves. -/
theorem resolveConfigDocument_eq_ok_iff {config : R}
    {pipelineName profileName environmentName : Option String} {resolved : ResolvedPipelineConfig O} :
    schemas.resolveConfigDocument config pipelineName profileName environmentName = .ok resolved ↔
      ∃ document, schemas.document config = .ok document ∧
        document.Resolves schemas pipelineName profileName environmentName resolved := by
  unfold resolveConfigDocument
  rw [bind_eq_ok_iff]
  refine exists_congr fun document => and_congr_right fun _ => ?_
  rw [bind_eq_ok_iff]
  constructor
  · rintro ⟨name, hname, h⟩
    cases hbase : document.pipelines.get? name with
    | none =>
      rw [hbase] at h
      cases h
    | some base =>
      rw [hbase] at h
      simp only [bind_eq_ok_iff] at h
      obtain ⟨profile, hprofile, environment, henvironment, _, hoverlaid, _, hoverlaid', result,
        hvalid, hresolved⟩ := h
      obtain ⟨hselects, rfl⟩ := applyNamedOverlay_eq_ok_iff.mp hoverlaid
      obtain ⟨hselects', rfl⟩ := applyNamedOverlay_eq_ok_iff.mp hoverlaid'
      cases hresolved
      refine ⟨hname, ?_, hprofile, henvironment, hselects, hselects', ?_⟩
      · by_contra hnot
        exact absurd (OrderedDict.get?_eq_none_iff.mpr hnot) (by simp [hbase])
      · rw [document.merged_eq hbase]
        exact hvalid
  · intro h
    obtain ⟨base, hbase⟩ : ∃ base, document.pipelines.get? resolved.pipelineName = some base :=
      Option.ne_none_iff_exists'.mp fun hnone => OrderedDict.get?_eq_none_iff.mp hnone h.found
    refine ⟨resolved.pipelineName, h.pipeline, ?_⟩
    rw [hbase]
    simp only [bind_eq_ok_iff]
    refine ⟨_, h.profile, _, h.environment, _, applyNamedOverlay_eq_ok_iff.mpr ⟨h.profileFound, rfl⟩,
      _, applyNamedOverlay_eq_ok_iff.mpr ⟨h.environmentFound, rfl⟩, resolved.pipelineConfig, ?_, rfl⟩
    rw [← document.merged_eq hbase]
    exact h.validated

/-- The resolved configuration of a pipeline is the validated form of the merged one, which has at each
path the value of the topmost layer that claims it: the environment's overlay, the profile's, the
pipeline, the defaults of the document, and at the bottom the name of the pipeline as its identifier. -/
theorem resolveConfigDocument_valueAt {config : R}
    {pipelineName profileName environmentName : Option String} {resolved : ResolvedPipelineConfig O}
    (h : schemas.resolveConfigDocument config pipelineName profileName environmentName = .ok resolved) :
    ∃ document, schemas.document config = .ok document ∧
      document.Resolves schemas pipelineName profileName environmentName resolved ∧
      let merged :=
        document.merged resolved.pipelineName resolved.profileName resolved.environmentName
      schemas.validatePipelineConfig merged = .ok resolved.pipelineConfig ∧
      ∀ path, merged.tree.valueAt path = topmost (document.layerTrees resolved.pipelineName
        resolved.profileName resolved.environmentName) path := by
  obtain ⟨document, hdocument, hresolves⟩ := schemas.resolveConfigDocument_eq_ok_iff.mp h
  exact ⟨document, hdocument, hresolves, hresolves.validated,
    ConfigDict.valueAt_setDefault_stack _ _ _ _⟩

end Schemas

/-! ### Workers -/

/-- What a selected profile or environment lays over the worker section. -/
def workerOverlaysOf (scopes : OrderedDict String (OverlayScope O)) (selectedName : Option String) :
    List (ConfigDict O) :=
  ((selectedName.bind scopes.get?).bind OverlayScope.worker).toList

namespace ConfigDocument

variable (document : ConfigDocument O)

/-- The layers over the worker section of the document, the last one on top. -/
def workerLayersOf (profileName environmentName : Option String) : List (ConfigDict O) :=
  workerOverlaysOf document.profiles profileName ++
    workerOverlaysOf document.environments environmentName

/-- The merged worker section, before it is validated. -/
def mergedWorker (profileName environmentName : Option String) : ConfigDict O :=
  (document.worker.getD .empty).stack (document.workerLayersOf profileName environmentName)

/-- All layers of the worker section, the topmost one first. -/
def workerLayerTrees (profileName environmentName : Option String) : List (ConfigTree O) :=
  ((document.worker.getD .empty :: document.workerLayersOf profileName environmentName).map
    ConfigDict.tree).reverse

end ConfigDocument

/-- A worker overlay is applied if its scope exists. -/
theorem applyWorkerOverlay_eq_ok_iff {config result : ConfigDict O} {selectedName : Option String}
    {scopes : OrderedDict String (OverlayScope O)} :
    applyWorkerOverlay config selectedName scopes = .ok result ↔
      Selects scopes selectedName ∧ result = config.stack (workerOverlaysOf scopes selectedName) := by
  unfold applyWorkerOverlay workerOverlaysOf Selects
  cases selectedName with
  | none => simp [ConfigDict.stack, eq_comm]
  | some name =>
    have hknown : name ∈ scopes.keys ↔ scopes.get? name ≠ none := by
      rw [Ne, OrderedDict.get?_eq_none_iff, not_not]
    cases hscope : scopes.get? name with
    | none => simp [hknown, hscope]
    | some scope =>
      cases hoverlay : scope.worker with
      | none => simp [hknown, hscope, hoverlay, ConfigDict.stack, eq_comm]
      | some overlay => simp [hknown, hscope, hoverlay, ConfigDict.stack, eq_comm]

/-- Stripping twice is stripping once. -/
theorem strip_strip (s : String) : File.strip (File.strip s) = File.strip s := by
  -- without the blanks at the end, the text still begins with none
  have hends : ∀ l : List Char, (l.dropWhile File.isSpace).rdropWhile File.isSpace =
      ((l.dropWhile File.isSpace).rdropWhile File.isSpace).dropWhile File.isSpace := by
    intro l
    refine (List.dropWhile_eq_self_iff.mpr fun hlt => ?_).symm
    have htrunc := List.rdropWhile_prefix File.isSpace (l.dropWhile File.isSpace)
    have hlt' := hlt.trans_le htrunc.length_le
    rw [htrunc.getElem hlt]
    exact List.dropWhile_get_zero_not File.isSpace l hlt'
  unfold File.strip
  rw [String.toList_ofList]
  change String.ofList (((((s.toList.dropWhile File.isSpace).rdropWhile File.isSpace).dropWhile
    File.isSpace)).rdropWhile File.isSpace) = _
  rw [← hends, List.rdropWhile_idempotent]
  rfl

/-- A name that is given is stripped. -/
theorem selectName_explicit {value selected label : String} {default : Option SelectorName}
    {names : List String} (h : selectName (some value) default names label = .ok selected) :
    selected = File.strip value := by
  by_cases hempty : File.strip value = ""
  · simp [selectName, selectOptionalOverlay, hempty] at h
  · simpa [selectName, selectOptionalOverlay, hempty, eq_comm] using h

/-- Selecting what has been selected makes no difference. -/
theorem selectOptionalOverlay_again {value : Option String} {default : Option SelectorName}
    {selected : Option String} (h : selectOptionalOverlay value default = .ok selected) :
    selectOptionalOverlay selected default = .ok selected := by
  cases value with
  | none =>
    cases default with
    | none =>
      cases h
      rfl
    | some name =>
      cases h
      rw [Option.map_some, selectOptionalOverlay, name.stripped, if_neg name.nonempty]
  | some value =>
    rw [selectOptionalOverlay] at h
    split at h
    · cases h
    · rename_i hnonempty
      cases h
      rw [selectOptionalOverlay, strip_strip, if_neg hnonempty]

namespace Schemas

variable (schemas : Schemas R O) {config : R} {profileName environmentName : Option String}

/-- A pipeline that resolves with the selected names resolves with the names as they are given. -/
theorem resolves_of_selected {document : ConfigDocument O} {profile environment : Option String}
    (hprofile : selectOptionalOverlay profileName document.defaults.profile = .ok profile)
    (henvironment : selectOptionalOverlay environmentName document.defaults.environment =
      .ok environment) {pipelineName : Option String} {resolved : ResolvedPipelineConfig O}
    (h : document.Resolves schemas pipelineName profile environment resolved) :
    document.Resolves schemas pipelineName profileName environmentName resolved ∧
      resolved.profileName = profile ∧ resolved.environmentName = environment := by
  have hselected : profile = resolved.profileName :=
    Except.ok.inj ((selectOptionalOverlay_again hprofile).symm.trans h.profile)
  have hselected' : environment = resolved.environmentName :=
    Except.ok.inj ((selectOptionalOverlay_again henvironment).symm.trans h.environment)
  refine ⟨⟨h.pipeline, h.found, ?_, ?_, h.profileFound, h.environmentFound, h.validated⟩,
    hselected.symm, hselected'.symm⟩
  · rw [hprofile, hselected]
  · rw [henvironment, hselected']

/-- A pipeline of a worker: it is resolved as on its own, under the name that is left of its key, and has
a schedule. -/
structure ScheduledAs (config : R) (profileName environmentName : Option String) (key : String)
    (resolved : ResolvedPipelineConfig O) : Prop where
  resolves : schemas.resolveConfigDocument config (some key) profileName environmentName = .ok resolved
  name : resolved.pipelineName = File.strip key
  scheduled : resolved.pipelineConfig.entries.lookup "schedule" ≠ none

/-- The pipelines of a worker resolve if each of them does, with a schedule. -/
theorem resolveScheduled_eq_ok_iff {names : List String} {pipelines : List (ResolvedPipelineConfig O)} :
    schemas.resolveScheduled config profileName environmentName names = .ok pipelines ↔
      List.Forall₂ (schemas.ScheduledAs config profileName environmentName) names pipelines := by
  induction names generalizing pipelines with
  | nil => simp [resolveScheduled, eq_comm]
  | cons name names ih =>
    rw [resolveScheduled, bind_eq_ok_iff, List.forall₂_cons_left_iff]
    constructor
    · rintro ⟨resolved, hresolved, h⟩
      split at h
      · cases h
      · rename_i hscheduled
        obtain ⟨rest, hrest, hpipelines⟩ := bind_eq_ok_iff.mp h
        cases hpipelines
        refine ⟨resolved, rest, ⟨hresolved, ?_, hscheduled⟩, ih.mp hrest, rfl⟩
        obtain ⟨document, -, hresolves⟩ := schemas.resolveConfigDocument_eq_ok_iff.mp hresolved
        exact selectName_explicit hresolves.pipeline
    · rintro ⟨resolved, rest, hresolved, hrest, rfl⟩
      refine ⟨resolved, hresolved.resolves, ?_⟩
      rw [if_neg hresolved.scheduled, bind_eq_ok_iff]
      exact ⟨rest, ih.mpr hrest, rfl⟩

/-- A worker resolves the pipelines of the document in order, each as it would be resolved on its own
with the same profile and environment.  Its own section is the validated form of the merged one, which has
the value of the topmost layer at each path. -/
theorem resolveWorkerConfigDocument_pipelines {resolved : ResolvedWorkerConfig O}
    (h : schemas.resolveWorkerConfigDocument config profileName environmentName = .ok resolved) :
    ∃ document, schemas.document config = .ok document ∧
      List.Forall₂ (fun key pipeline =>
        schemas.ScheduledAs config profileName environmentName key pipeline ∧
          pipeline.profileName = resolved.profileName ∧
          pipeline.environmentName = resolved.environmentName)
        document.pipelines.keys resolved.pipelines ∧
      let merged := document.mergedWorker resolved.profileName resolved.environmentName
      schemas.validateWorkerConfig merged = .ok resolved.workerConfig ∧
      ∀ path, merged.tree.valueAt path =
        topmost (document.workerLayerTrees resolved.profileName resolved.environmentName) path := by
  unfold resolveWorkerConfigDocument at h
  simp only [bind_eq_ok_iff] at h
  obtain ⟨document, hdocument, profile, hprofile, environment, henvironment, _, hoverlaid, _,
    hoverlaid', workerConfig, hworker, pipelines, hpipelines, hresolved⟩ := h
  obtain ⟨-, rfl⟩ := applyWorkerOverlay_eq_ok_iff.mp hoverlaid
  obtain ⟨-, rfl⟩ := applyWorkerOverlay_eq_ok_iff.mp hoverlaid'
  cases hresolved
  have hscheduled := schemas.resolveScheduled_eq_ok_iff.mp hpipelines
  have hpipeline : ∀ key pipeline, schemas.ScheduledAs config profile environment key pipeline →
      schemas.ScheduledAs config profileName environmentName key pipeline ∧
        pipeline.profileName = profile ∧ pipeline.environmentName = environment := by
    intro key pipeline hkey
    obtain ⟨document', hdocument', hresolves⟩ :=
      schemas.resolveConfigDocument_eq_ok_iff.mp hkey.resolves
    obtain rfl : document = document' := Except.ok.inj (hdocument.symm.trans hdocument')
    obtain ⟨hgiven, hnames⟩ := schemas.resolves_of_selected hprofile henvironment hresolves
    exact ⟨⟨schemas.resolveConfigDocument_eq_ok_iff.mpr ⟨document, hdocument, hgiven⟩, hkey.name,
      hkey.scheduled⟩, hnames⟩
  have hmerged : document.mergedWorker profile environment =
      ((document.worker.getD .empty).stack (workerOverlaysOf document.profiles profile)).stack
        (workerOverlaysOf document.environments environment) := List.foldl_append
  refine ⟨document, hdocument, hscheduled.imp hpipeline, ?_, ConfigDict.valueAt_stack _ _⟩
  rw [hmerged]
  exact hworker

end Schemas

/-! ### A document with a profile and an environment -/

/-- Schemas that let everything pass. -/
def permissive : Schemas (ConfigDocument ℕ) ℕ where
  document := .ok
  pipeline := .ok
  worker := .ok

/-- A pipeline whose batch size is set by a profile and whose records are set by an environment. -/
def eventsDocument : ConfigDocument ℕ where
  defaults :=
    { profile := some ⟨"batch", rfl, by decide⟩, environment := some ⟨"prod", rfl, by decide⟩ }
  performance := some { profile := .throughput }
  worker := none
  pipelines := ⟨[("events", ⟨[("source", .dict [("type", .leaf (.str "iterable")),
    ("records", .list [.leaf (.other 1)]), ("batch_size", .leaf (.other 1))]),
    ("sinks", .list [.dict [("type", .leaf (.str "stdout"))]]),
    ("schedule", .dict [("mode", .leaf (.str "once"))])], by simp [Wf, WfEntries, WfItems]⟩)],
    by simp⟩
  profiles := ⟨[("batch", ⟨⟨[("events", ⟨[("source", .dict [("batch_size", .leaf (.other 100))])],
    by simp [Wf, WfEntries]⟩)], by simp⟩, none⟩)], by simp⟩
  environments := ⟨[("prod", ⟨⟨[("events", ⟨[("source", .dict
    [("records", .list [.leaf (.other 9), .leaf (.other 8)])])], by simp [Wf, WfEntries, WfItems]⟩)],
    by simp⟩, none⟩)], by simp⟩
  pipelines_nonempty := by simp [OrderedDict.keys]

example : (eventsDocument.merged "events" (some "batch") (some "prod")).tree.valueAt
    ["source", "batch_size"] = some (.leaf (.other 100)) := rfl

/-- The document resolves with the profile and the environment that it names itself. -/
theorem resolveConfigDocument_valueAt_events :
    let merged := eventsDocument.merged "events" (some "batch") (some "prod")
    permissive.resolveConfigDocument eventsDocument none none none =
        .ok ⟨"events", some "batch", some "prod", merged⟩ ∧
      ∀ path, merged.tree.valueAt path =
        topmost (eventsDocument.layerTrees "events" (some "batch") (some "prod")) path := by
  intro merged
  have h : permissive.resolveConfigDocument eventsDocument none none none =
      .ok ⟨"events", some "batch", some "prod", merged⟩ := rfl
  obtain ⟨document, hdocument, -, -, hvalue⟩ := permissive.resolveConfigDocument_valueAt h
  obtain rfl : eventsDocument = document := Except.ok.inj hdocument
  exact ⟨h, hvalue⟩

/-- A worker with two pipelines; the profile lays something over one of them and over the worker section,
and so does the environment. -/
def workerDocument : ConfigDocument ℕ where
  defaults := { profile := some ⟨"batch", rfl, by decide⟩ }
  performance := none
  worker := some ⟨[("max_workers", .leaf (.other 2)), ("leases", .dict [("ttl", .leaf (.other 30))])],
    by simp [Wf, WfEntries]⟩
  pipelines := ⟨[
    ("events", ⟨[("sinks", .list [.dict [("type", .leaf (.str "stdout"))]]),
      ("schedule", .dict [("mode", .leaf (.str "once"))])], by simp [Wf, WfEntries, WfItems]⟩),
    ("orders", ⟨[("sinks", .list [.dict [("type", .leaf (.str "csv"))]]),
      ("schedule", .dict [("every", .leaf (.other 60))])], by simp [Wf, WfEntries, WfItems]⟩)],
    by simp⟩
  profiles := ⟨[("batch", ⟨⟨[("orders", ⟨[("schedule", .dict [("every", .leaf (.other 300))])],
    by simp [Wf, WfEntries]⟩)], by simp⟩,
    some ⟨[("max_workers", .leaf (.other 8))], by simp [Wf, WfEntries]⟩⟩)], by simp⟩
  environments := ⟨[("prod", ⟨.empty,
    some ⟨[("leases", .dict [("ttl", .leaf (.other 90))])], by simp [Wf, WfEntries]⟩⟩)], by simp⟩
  pipelines_nonempty := by simp [OrderedDict.keys]

example : (workerDocument.mergedWorker (some "batch") (some "prod")).tree.valueAt ["max_workers"] =
    some (.leaf (.other 8)) := rfl

/-- In production the worker has its own profile, two pipelines in their order, and a section that both
overlays have changed. -/
theorem resolveWorkerConfigDocument_pipelines_worker :
    let merged := workerDocument.mergedWorker (some "batch") (some "prod")
    ∃ pipelines, permissive.resolveWorkerConfigDocument workerDocument none (some "prod") =
        .ok ⟨some "batch", some "prod", merged, pipelines⟩ ∧
      pipelines.map ResolvedPipelineConfig.pipelineName = ["events", "orders"] ∧
      List.Forall₂ (fun key pipeline =>
        permissive.ScheduledAs workerDocument none (some "prod") key pipeline ∧
          pipeline.profileName = some "batch" ∧ pipeline.environmentName = some "prod")
        ["events", "orders"] pipelines ∧
      ∀ path, merged.tree.valueAt path =
        topmost (workerDocument.workerLayerTrees (some "batch") (some "prod")) path := by
  intro merged
  obtain ⟨pipelines, h, hnames⟩ : ∃ pipelines,
      permissive.resolveWorkerConfigDocument workerDocument none (some "prod") =
        .ok ⟨some "batch", some "prod", merged, pipelines⟩ ∧
      pipelines.map ResolvedPipelineConfig.pipelineName = ["events", "orders"] := ⟨_, rfl, rfl⟩
  obtain ⟨document, hdocument, hpipelines, -, hvalue⟩ :=
    permissive.resolveWorkerConfigDocument_pipelines h
  obtain rfl : workerDocument = document := Except.ok.inj hdocument
  exact ⟨pipelines, h, hnames, hpipelines, hvalue⟩

end AgoraEtl.Config
