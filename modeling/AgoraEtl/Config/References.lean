import AgoraEtl.Config.Layers

/-!
# Import references

A dictionary whose only key is `import` stands for a Python object.  `collectImportReferences` lists these
references with their places, for the user to review.  Merging layers makes up no reference: each one of
the merged configuration is written at the same place in one of the layers.
-/

namespace AgoraEtl.Config

open DataTree

variable {O : Type}

/-- A reference and where it is. -/
structure ImportReference where
  path : String
  target : String
  deriving DecidableEq

def ImportReference.text (r : ImportReference) : String :=
  (if r.path = "" then "<root>" else r.path) ++ "=" ++ r.target

/-- The place of a value under a key or an index. -/
def childPath (path key : String) : String := if path = "" then key else path ++ "." ++ key

/-- `set(config.keys()) == {"import"}`, for entries with distinct keys. -/
def IsImport (entries : List (String × ConfigTree O)) : Prop := entries.map Prod.fst = ["import"]

instance (entries : List (String × ConfigTree O)) : Decidable (IsImport entries) :=
  inferInstanceAs (Decidable (_ = _))

/-- The string of a reference. -/
def importTarget : List (String × ConfigTree O) → Option String
  | [(_, .leaf (.str target))] => some target
  | _ => none

mutual

/-- The references of a value at the place. -/
def importReferences (path : String) : ConfigTree O → List ImportReference
  | .leaf _ => []
  | .list items => itemReferences path 0 items
  | .dict entries =>
    if IsImport entries then (importTarget entries).toList.map fun target => ⟨path, target⟩
    else entryReferences path entries

def itemReferences (path : String) (index : ℕ) : List (ConfigTree O) → List ImportReference
  | [] => []
  | item :: items =>
    importReferences (childPath path (toString index)) item ++ itemReferences path (index + 1) items

def entryReferences (path : String) : List (String × ConfigTree O) → List ImportReference
  | [] => []
  | (key, value) :: entries => importReferences (childPath path key) value ++ entryReferences path entries

end

/-- `collect_import_references`. -/
def collectImportReferences (config : ConfigTree O) (path : String) : List String :=
  (importReferences path config).map ImportReference.text

mutual

/-- Every reference of the value has a string for its target. -/
def ImportsNamed : ConfigTree O → Prop
  | .leaf _ => True
  | .list items => ItemsNamed items
  | .dict entries => (IsImport entries → ∃ target, importTarget entries = some target) ∧
    EntriesNamed entries

def ItemsNamed : List (ConfigTree O) → Prop
  | [] => True
  | item :: items => ImportsNamed item ∧ ItemsNamed items

def EntriesNamed : List (String × ConfigTree O) → Prop
  | [] => True
  | (_, value) :: entries => ImportsNamed value ∧ EntriesNamed entries

end

theorem entriesNamed_iff {entries : List (String × ConfigTree O)} :
    EntriesNamed entries ↔ ∀ entry ∈ entries, ImportsNamed entry.2 := by
  induction entries with
  | nil => simp [EntriesNamed]
  | cons entry entries ih => simp [EntriesNamed, ih]

theorem mem_entryReferences {path : String} {entries : List (String × ConfigTree O)}
    {r : ImportReference} : r ∈ entryReferences path entries ↔
      ∃ entry ∈ entries, r ∈ importReferences (childPath path entry.1) entry.2 := by
  induction entries with
  | nil => simp [entryReferences]
  | cons entry entries ih => simp [entryReferences, ih]

/-- A reference with a target is an entry with a string. -/
theorem importTarget_eq_some_iff {entries : List (String × ConfigTree O)} {target : String} :
    importTarget entries = some target ↔ ∃ key, entries = [(key, .leaf (.str target))] := by
  unfold importTarget
  split
  · simp
  · rename_i hnot
    simp only [reduceCtorEq, false_iff, not_exists]
    exact fun key h => hnot _ _ h

/-- A reference whose target is a string. -/
theorem ImportsNamed.eq_of_isImport {entries : List (String × ConfigTree O)}
    (h : ImportsNamed (.dict entries)) (himport : IsImport entries) :
    ∃ target, entries = [("import", .leaf (.str target))] := by
  obtain ⟨target, htarget⟩ := h.1 himport
  obtain ⟨key, rfl⟩ := importTarget_eq_some_iff.mp htarget
  obtain rfl : key = "import" := List.singleton_inj.mp himport
  exact ⟨target, rfl⟩

/-- The references of a dictionary are those of its values, unless it is one itself. -/
theorem mem_references_of_mem {entries : List (String × ConfigTree O)}
    (hnamed : ImportsNamed (.dict entries)) {entry : String × ConfigTree O} (hentry : entry ∈ entries)
    {path : String} {r : ImportReference}
    (hr : r ∈ importReferences (childPath path entry.1) entry.2) :
    r ∈ importReferences path (.dict entries) := by
  rw [importReferences]
  split
  · rename_i himport
    obtain ⟨target, rfl⟩ := hnamed.eq_of_isImport himport
    rw [List.mem_singleton.mp hentry, importReferences] at hr
    cases hr
  · exact mem_entryReferences.mpr ⟨entry, hentry, hr⟩

section Overlay

variable {base upper : List (String × ConfigTree O)}

theorem lookup_of_mem {entries : List (String × ConfigTree O)} (h : (entries.map Prod.fst).Nodup)
    {entry : String × ConfigTree O} (hentry : entry ∈ entries) :
    entries.lookup entry.1 = some entry.2 :=
  (OrderedDict.mem_entries_iff (d := ⟨entries, h⟩)).mp hentry

/-- A merged entry is the one below, where there is none above, or the merged values of the two. -/
theorem mem_mergeEntries (hbase : (base.map Prod.fst).Nodup) (hover : (upper.map Prod.fst).Nodup)
    {entry : String × ConfigTree O} (h : entry ∈ mergeEntries base upper) :
    entry ∈ base ∨ ∃ value, (entry.1, value) ∈ upper ∧
      entry.2 = mergeInto (base.lookup entry.1) value := by
  have hlookup := lookup_of_mem (nodup_mergeEntries hbase upper) h
  rw [lookup_mergeEntries hover] at hlookup
  cases hvalue : upper.lookup entry.1 with
  | none =>
    rw [hvalue] at hlookup
    exact .inl (mem_of_lookup_eq_some hlookup)
  | some value =>
    rw [hvalue] at hlookup
    exact .inr ⟨value, mem_of_lookup_eq_some hvalue, (Option.some.inj hlookup).symm⟩

/-- Merged entries are a reference only if one of the two is that reference. -/
theorem eq_of_isImport_mergeEntries (hover : (upper.map Prod.fst).Nodup)
    (hnamed : ImportsNamed (.dict upper)) (himport : IsImport (mergeEntries base upper)) :
    mergeEntries base upper = base ∨ mergeEntries base upper = upper := by
  have hkeys : ∀ entry ∈ upper, entry.1 = "import" := by
    intro entry hentry
    have hsome : ((mergeEntries base upper).lookup entry.1).isSome = true := by
      rw [isSome_lookup_mergeEntries hover, lookup_of_mem hover hentry]
      rfl
    obtain ⟨value, hvalue⟩ := Option.isSome_iff_exists.mp hsome
    have hmem := List.mem_map_of_mem (f := Prod.fst) (mem_of_lookup_eq_some hvalue)
    rw [himport] at hmem
    exact List.mem_singleton.mp hmem
  cases upper with
  | nil => exact .inl rfl
  | cons entry rest =>
    right
    have hrest : rest = [] := by
      cases rest with
      | nil => rfl
      | cons entry' rest =>
        have hsame : entry.1 = entry'.1 :=
          (hkeys entry List.mem_cons_self).trans
            (hkeys entry' (List.mem_cons_of_mem _ List.mem_cons_self)).symm
        simp [hsame] at hover
    subst hrest
    have hfirst : IsImport [entry] := by
      rw [IsImport, List.map_singleton, hkeys entry List.mem_cons_self]
    obtain ⟨target, htarget⟩ := hnamed.eq_of_isImport hfirst
    obtain rfl := List.singleton_inj.mp htarget
    obtain ⟨key, value, hmerged⟩ : ∃ key value,
        mergeEntries base [("import", .leaf (.str target))] = [(key, value)] := by
      obtain ⟨merged, hmerged, -⟩ := List.map_eq_singleton_iff.mp himport
      exact ⟨merged.1, merged.2, hmerged⟩
    have hlookup := lookup_mergeEntries hover base "import"
    rw [hmerged] at himport hlookup ⊢
    obtain rfl : key = "import" := List.singleton_inj.mp himport
    rw [OrderedDict.lookup_cons_eq_ite, if_pos rfl, OrderedDict.lookup_cons_eq_ite, if_pos rfl] at hlookup
    rw [Option.some.inj hlookup, mergeInto]

/-- Laying a configuration over another one makes up no reference. -/
theorem references_overlay (upper : ConfigTree O) (hover : upper.Wf) (hnamed : ImportsNamed upper)
    {base : ConfigTree O} (hbase : base.Wf) (hnamed' : ImportsNamed base) :
    ImportsNamed (overlay base upper) ∧ ∀ path r, r ∈ importReferences path (overlay base upper) →
      r ∈ importReferences path base ∨ r ∈ importReferences path upper := by
  induction upper using induction_mem generalizing base with
  | leaf value =>
    rw [overlay_leaf]
    exact ⟨hnamed, fun _ _ hr => .inr hr⟩
  | list items _ =>
    rw [overlay_list]
    exact ⟨hnamed, fun _ _ hr => .inr hr⟩
  | dict upper ih =>
    cases base with
    | leaf _ => exact ⟨hnamed, fun _ _ hr => .inr hr⟩
    | list _ => exact ⟨hnamed, fun _ _ hr => .inr hr⟩
    | dict base =>
      have hchild : ∀ entry ∈ mergeEntries base upper, ImportsNamed entry.2 ∧
          ∀ path r, r ∈ importReferences path entry.2 →
            (∃ value, (entry.1, value) ∈ base ∧ r ∈ importReferences path value) ∨
              ∃ value, (entry.1, value) ∈ upper ∧ r ∈ importReferences path value := by
        intro entry hentry
        rcases mem_mergeEntries hbase.1 hover.1 hentry with hmem | ⟨value, hvalue, hmerged⟩
        · exact ⟨entriesNamed_iff.mp hnamed'.2 _ hmem, fun _ _ hr => .inl ⟨entry.2, hmem, hr⟩⟩
        · have hnamedValue := entriesNamed_iff.mp hnamed.2 _ hvalue
          rw [hmerged]
          cases hold : base.lookup entry.1 with
          | none =>
            have hsame : mergeInto none value = value := by cases value <;> rfl
            rw [hsame]
            exact ⟨hnamedValue, fun _ _ hr => .inr ⟨value, hvalue, hr⟩⟩
          | some old =>
            have hmem := mem_of_lookup_eq_some hold
            obtain ⟨hresult, hrefs⟩ := ih _ hvalue (wfEntries_iff.mp hover.2 _ hvalue) hnamedValue
              (wfEntries_iff.mp hbase.2 _ hmem) (entriesNamed_iff.mp hnamed'.2 _ hmem)
            exact ⟨hresult, fun path r hr => (hrefs path r hr).imp (fun h => ⟨old, hmem, h⟩)
              fun h => ⟨value, hvalue, h⟩⟩
      rw [overlay_dict_dict]
      by_cases himport : IsImport (mergeEntries base upper)
      · rcases eq_of_isImport_mergeEntries hover.1 hnamed himport with hsame | hsame
        · rw [hsame]
          exact ⟨hnamed', fun _ _ hr => .inl hr⟩
        · rw [hsame]
          exact ⟨hnamed, fun _ _ hr => .inr hr⟩
      · refine ⟨⟨fun h => absurd h himport, entriesNamed_iff.mpr fun entry h => (hchild entry h).1⟩,
          fun path r hr => ?_⟩
        rw [importReferences, if_neg himport] at hr
        obtain ⟨entry, hentry, hr⟩ := mem_entryReferences.mp hr
        rcases (hchild entry hentry).2 _ r hr with ⟨value, hmem, hr⟩ | ⟨value, hmem, hr⟩
        · exact .inl (mem_references_of_mem hnamed' hmem hr)
        · exact .inr (mem_references_of_mem hnamed hmem hr)

end Overlay

/-- A stack of layers has only references that one of them has. -/
theorem references_stack {base : ConfigDict O} {layers : List (ConfigDict O)}
    (hnamed : ∀ layer ∈ base :: layers, ImportsNamed layer.tree) :
    ImportsNamed (base.stack layers).tree ∧
      ∀ path r, r ∈ importReferences path (base.stack layers).tree →
        ∃ layer ∈ base :: layers, r ∈ importReferences path layer.tree := by
  induction layers generalizing base with
  | nil => exact ⟨hnamed base List.mem_cons_self, fun _ r hr => ⟨base, List.mem_cons_self, hr⟩⟩
  | cons layer layers ih =>
    obtain ⟨hmerged, hrefs⟩ := references_overlay layer.tree layer.wf
      (hnamed layer (by simp)) base.wf (hnamed base (by simp))
    obtain ⟨hstack, hstackRefs⟩ := @ih (base.deepMerge layer) (List.forall_mem_cons.mpr
      ⟨hmerged, fun d hd => hnamed d (by simp [hd])⟩)
    refine ⟨hstack, fun path r hr => ?_⟩
    obtain ⟨found, hfound, hr⟩ := hstackRefs path r hr
    rcases List.mem_cons.mp hfound with rfl | hfound
    · rcases hrefs path r hr with hr | hr
      · exact ⟨base, by simp, hr⟩
      · exact ⟨layer, by simp, hr⟩
    · exact ⟨found, by simp [hfound], hr⟩

theorem mem_setEntry {entries : List (String × ConfigTree O)} {key : String} {value : ConfigTree O}
    {entry : String × ConfigTree O} (h : entry ∈ OrderedDict.setEntry entries key value) :
    entry = (key, value) ∨ entry ∈ entries := by
  induction entries with
  | nil => exact .inl (List.mem_singleton.mp h)
  | cons first entries ih =>
    rw [OrderedDict.setEntry] at h
    split at h
    · rename_i hkey
      rcases List.mem_cons.mp h with rfl | h
      · exact .inl (by rw [hkey])
      · exact .inr (List.mem_cons_of_mem _ h)
    · rcases List.mem_cons.mp h with rfl | h
      · exact .inr List.mem_cons_self
      · exact (ih h).imp_right (List.mem_cons_of_mem _)

/-- A default string is no reference. -/
theorem references_setDefault {d : ConfigDict O} (hnamed : ImportsNamed d.tree) {key : String}
    (hkey : key ≠ "import") (value : String) {path : String} {r : ImportReference}
    (hr : r ∈ importReferences path (d.setDefault key value).tree) :
    r ∈ importReferences path d.tree := by
  by_cases hnone : d.entries.lookup key = none
  · have hentries : (d.setDefault key value).entries =
        OrderedDict.setEntry d.entries key (.leaf (.str value)) := if_pos hnone
    rw [ConfigDict.tree, hentries, importReferences] at hr
    have hnot : ¬ IsImport (OrderedDict.setEntry d.entries key (.leaf (.str value))) := by
      intro himport
      have hmem := (OrderedDict.mem_keys_setEntry d.entries key (.leaf (.str value)) key).mpr (.inl rfl)
      rw [himport] at hmem
      exact hkey (List.mem_singleton.mp hmem)
    rw [if_neg hnot] at hr
    obtain ⟨entry, hentry, hr⟩ := mem_entryReferences.mp hr
    rcases mem_setEntry hentry with rfl | hentry
    · rw [importReferences] at hr
      cases hr
    · exact mem_references_of_mem hnamed hentry hr
  · have hentries : (d.setDefault key value).entries = d.entries := if_neg hnone
    rwa [ConfigDict.tree, hentries] at hr

/-- The defaults of a document have no references. -/
theorem references_documentDefaults (document : ConfigDocument O) (path : String) :
    ImportsNamed document.documentDefaults.tree ∧
      importReferences path document.documentDefaults.tree = [] := by
  unfold ConfigDocument.documentDefaults
  cases document.performance with
  | none => exact ⟨⟨by simp [IsImport, ConfigDict.empty], trivial⟩, rfl⟩
  | some performance =>
    have hdump : (performance.modelDump : ConfigDict O).tree =
        .dict [("acceleration", .leaf (.str performance.acceleration.text)),
          ("profile", .leaf (.str performance.profile.text))] := rfl
    refine ⟨⟨by simp [IsImport], ?_, trivial⟩, ?_⟩
    · rw [hdump]
      exact ⟨by simp [IsImport], trivial, trivial, trivial⟩
    · rw [ConfigDict.tree, importReferences, if_neg (by simp [IsImport]), entryReferences, hdump,
        importReferences, if_neg (by simp [IsImport])]
      rfl

/-- The references of the merged configuration, whose validated form is the resolved one, are written at
the same places in the pipeline, in the profile's overlay or in the environment's. -/
theorem Schemas.resolveConfigDocument_references {R : Type} (schemas : Schemas R O) {config : R}
    {pipelineName profileName environmentName : Option String} {resolved : ResolvedPipelineConfig O}
    (h : schemas.resolveConfigDocument config pipelineName profileName environmentName = .ok resolved) :
    ∃ document, schemas.document config = .ok document ∧
      let merged :=
        document.merged resolved.pipelineName resolved.profileName resolved.environmentName
      schemas.validatePipelineConfig merged = .ok resolved.pipelineConfig ∧
      let layers := document.layersOf resolved.pipelineName resolved.profileName resolved.environmentName
      (∀ layer ∈ layers, ImportsNamed layer.tree) →
        ∀ r ∈ importReferences "" merged.tree, ∃ layer ∈ layers, r ∈ importReferences "" layer.tree := by
  obtain ⟨document, hdocument, hresolves⟩ := schemas.resolveConfigDocument_eq_ok_iff.mp h
  refine ⟨document, hdocument, hresolves.validated, fun hnamed r hr => ?_⟩
  obtain ⟨hdefaults, hnone⟩ := references_documentDefaults document ""
  obtain ⟨hstack, hrefs⟩ := references_stack (List.forall_mem_cons.mpr ⟨hdefaults, hnamed⟩)
  obtain ⟨layer, hlayer, hr⟩ := hrefs "" r (references_setDefault hstack (by simp) _ hr)
  rcases List.mem_cons.mp hlayer with rfl | hlayer
  · rw [hnone] at hr
    cases hr
  · exact ⟨layer, hlayer, hr⟩

/-! ### A document with references -/

def cleaningPipeline : ConfigDict ℕ :=
  ⟨[("sinks", .list [.dict [("type", .leaf (.str "stdout"))]]),
    ("middlewares", .list [.dict [("type", .leaf (.str "map")),
      ("fn", .dict [("import", .leaf (.str "app.rows:clean"))])]])],
    by simp [Wf, WfEntries, WfItems]⟩

def dedupOverlay : ConfigDict ℕ :=
  ⟨[("dedup", .dict [("key", .dict [("import", .leaf (.str "app.rows:key"))])])],
    by simp [Wf, WfEntries]⟩

/-- A pipeline with a reference, and an environment that adds another one. -/
def cleaningDocument : ConfigDocument ℕ where
  defaults := {}
  performance := none
  worker := none
  pipelines := ⟨[("events", cleaningPipeline)], by simp⟩
  profiles := .empty
  environments := ⟨[("prod", ⟨⟨[("events", dedupOverlay)], by simp⟩, none⟩)], by simp⟩
  pipelines_nonempty := by simp [OrderedDict.keys]

example : collectImportReferences (cleaningDocument.merged "events" none (some "prod")).tree "" =
    ["middlewares.0.fn=app.rows:clean", "dedup.key=app.rows:key"] := by decide

/-- The two references come from the pipeline and from the overlay of the environment. -/
theorem resolveConfigDocument_references_cleaning :
    permissive.resolveConfigDocument cleaningDocument none none (some "prod") =
        .ok ⟨"events", none, some "prod", cleaningDocument.merged "events" none (some "prod")⟩ ∧
      ∀ r ∈ importReferences "" (cleaningDocument.merged "events" none (some "prod")).tree,
        ∃ layer ∈ [cleaningPipeline, dedupOverlay], r ∈ importReferences "" layer.tree := by
  have h : permissive.resolveConfigDocument cleaningDocument none none (some "prod") =
      .ok ⟨"events", none, some "prod", cleaningDocument.merged "events" none (some "prod")⟩ := rfl
  refine ⟨h, ?_⟩
  obtain ⟨document, hdocument, -, hrefs⟩ := permissive.resolveConfigDocument_references h
  obtain rfl : cleaningDocument = document := Except.ok.inj hdocument
  have hnamed : ∀ layer ∈ [cleaningPipeline, dedupOverlay], ImportsNamed layer.tree := by
    simp [cleaningPipeline, dedupOverlay, ConfigDict.tree, ImportsNamed, ItemsNamed, EntriesNamed,
      IsImport, importTarget]
  exact hrefs hnamed

end AgoraEtl.Config
