import AgoraEtl.Config.Components

/-!
# What a configuration imports

The contract of the builders: every module that is imported belongs to a listed reference or to the
factory itself, as long as the objects that are given, imported or built contain no references.  One lemma
for each builder says that it meets the contract, and that its result contains no references.
-/

namespace AgoraEtl.Config.Components

open DataTree Effect Program

variable {O : Type}

/-! ### Values without references -/

mutual

/-- The value has no reference in it. -/
def Plain : ConfigTree O → Prop
  | .leaf _ => True
  | .list items => PlainItems items
  | .dict entries => ¬ IsImport entries ∧ PlainEntries entries

def PlainItems : List (ConfigTree O) → Prop
  | [] => True
  | item :: items => Plain item ∧ PlainItems items

def PlainEntries : List (String × ConfigTree O) → Prop
  | [] => True
  | (_, value) :: entries => Plain value ∧ PlainEntries entries

end

/-- Items are plain if each of them is. -/
theorem plainItems_iff {items : List (ConfigTree O)} :
    PlainItems items ↔ ∀ item ∈ items, Plain item := by
  induction items with
  | nil => simp [PlainItems]
  | cons item items ih => simp [PlainItems, ih]

/-- Entries are plain if each value is. -/
theorem plainEntries_iff {entries : List (String × ConfigTree O)} :
    PlainEntries entries ↔ ∀ entry ∈ entries, Plain entry.2 := by
  induction entries with
  | nil => simp [PlainEntries]
  | cons entry entries ih => simp [PlainEntries, ih]

/-- What a plain dictionary has under a key is plain. -/
theorem Plain.lookup {entries : List (String × ConfigTree O)} (h : Plain (.dict entries)) {key : String}
    {value : ConfigTree O} (hvalue : entries.lookup key = some value) : Plain value :=
  plainEntries_iff.mp h.2 _ (mem_of_lookup_eq_some hvalue)

/-- A reference in a list is one in an item of it. -/
theorem mem_itemReferences {path : String} {items : List (ConfigTree O)} {index : ℕ}
    {r : ImportReference} (h : r ∈ itemReferences path index items) :
    ∃ item ∈ items, ∃ path', r ∈ importReferences path' item := by
  induction items generalizing index with
  | nil => cases h
  | cons item items ih =>
    rw [itemReferences, List.mem_append] at h
    rcases h with h | h
    · exact ⟨item, List.mem_cons_self, _, h⟩
    · obtain ⟨item', hitem', path', h⟩ := ih h
      exact ⟨item', List.mem_cons_of_mem _ hitem', path', h⟩

/-- A value without references has none listed. -/
theorem Plain.references {value : ConfigTree O} (h : Plain value) (path : String) :
    importReferences path value = [] := by
  induction value using induction_mem generalizing path with
  | leaf value => rfl
  | list items ih =>
    refine List.eq_nil_iff_forall_not_mem.mpr fun r hr => ?_
    obtain ⟨item, hitem, path', hr⟩ := mem_itemReferences hr
    rw [ih item hitem (plainItems_iff.mp h item hitem)] at hr
    cases hr
  | dict entries ih =>
    rw [importReferences, if_neg h.1]
    refine List.eq_nil_iff_forall_not_mem.mpr fun r hr => ?_
    obtain ⟨entry, hentry, hr⟩ := mem_entryReferences.mp hr
    rw [ih entry hentry (plainEntries_iff.mp h.2 entry hentry)] at hr
    cases hr

/-! ### The contract -/

/-- The object that is given by the event. -/
def objectOf : Event (Op O) Op.Ret Empty → Option (ConfigTree O)
  | .called (.getAttr _ _) (.ok object) => some object
  | .called (.create _ _ _) (.ok object) => some object
  | .called (.createDedup _ _ _ _) (.ok object) => some object
  | _ => none

/-- The module that is imported by the event. -/
def importedModule : Event (Op O) Op.Ret Empty → Option String
  | .called (.importModule name) _ => some name
  | _ => none

/-- The module is that of one of the targets. -/
def ModuleListed (listed : List String) (name : String) : Prop :=
  ∃ target ∈ listed, ∃ attr, splitImportPath target = .ok (name, attr)

/-- All references of the value at the place are listed. -/
def Listed (listed : List String) (path : String) (value : ConfigTree O) : Prop :=
  ∀ r ∈ importReferences path value, r.target ∈ listed

/-- The module is that of one of the targets, or one of the factory's own. -/
def ModuleExpected (listed : List String) (name : String) : Prop :=
  ModuleListed listed name ∨ name ∈ factoryModules

/-- Only modules of listed targets and those of the factory are imported, where no object contains a
reference. -/
def importContract (O : Type) (listed : List String) : Contract (Op O) Op.Ret Empty Unit where
  ready := fun _ _ _ => True
  assume := fun _ e => ∀ object, objectOf e = some object → Plain object
  ensure := fun _ e => ∀ name, importedModule e = some name → ModuleExpected listed name
  rely := Eq
  guarantee := fun _ _ => True
  mayHang := False

/-- The builder meets the contract, and what it returns has the property. -/
def Meets {α : Type} (listed : List String) (P : α → Prop) (p : Build O α) : Prop :=
  ∀ w₀ w, p.Safe (importContract O listed) (fun a _ _ => P a) (fun _ _ _ => True) w₀ w

variable {α β : Type} {listed : List String} {P : α → Prop} {Q : β → Prop}

/-- A program that returns at once imports nothing. -/
theorem meets_pure {a : α} (h : P a) : Meets listed P (pure a : Build O α) := fun _ _ => h

/-- A program that raises imports nothing. -/
theorem meets_raise (e : BuildError) : Meets listed P (raise e : Build O α) := fun _ _ => trivial

/-- A sequence imports what its parts do. -/
theorem Meets.bind {p : Build O α} {f : α → Build O β} (hp : Meets listed P p)
    (hf : ∀ a, P a → Meets listed Q (f a)) : Meets listed Q (p >>= f) := by
  intro w₀ w
  rw [safe_bind]
  exact (hp w₀ w).mono (fun a w₀ w ha => hf a ha w₀ w) fun _ _ _ he => he

/-- What is checked and passed on imports nothing. -/
theorem meets_ofExcept {r : Except BuildError α} (h : ∀ a, r = .ok a → P a) :
    Meets listed P (ofExcept r : Build O α) := by
  cases r with
  | ok a => exact meets_pure (h a rfl)
  | error e => exact meets_raise e

/-- A call that imports nothing is answered by an object without references. -/
theorem meets_perform {o : Op O} (himports : ∀ r, importedModule (.called o r) = none) {P : o.Ret → Prop}
    (h : ∀ r, (∀ object, objectOf (.called o r) = some object → Plain object) → P r) :
    Meets listed P (perform o : Build O o.Ret) := by
  intro w₀ w
  rw [safe_perform]
  refine ⟨trivial, fun w₁ _ r _ ha => ⟨fun name hname => ?_, h r ha⟩⟩
  rw [himports r] at hname
  cases hname

/-- An expected module may be imported. -/
theorem meets_importModule {name : String} (h : ModuleExpected listed name) :
    Meets listed (fun _ => True) (perform (Op.importModule name) : Build O (Except BuildError Unit)) := by
  intro w₀ w
  refine safe_perform.mpr ⟨trivial, fun w₁ _ r _ _ => ⟨fun name' hname => ?_, trivial⟩⟩
  cases hname
  exact h

/-! ### Builders -/

/-- An object is imported if its path is listed, and it is plain. -/
theorem meets_importObject {importPath : String} (h : importPath ∈ listed) :
    Meets listed Plain (importObject importPath : Build O (ConfigTree O)) := by
  unfold importObject
  refine Meets.bind (meets_ofExcept (P := fun names => splitImportPath importPath = .ok names)
    fun _ hnames => hnames) fun names hnames => ?_
  refine (meets_importModule (.inl ⟨importPath, h, names.2, hnames⟩)).bind fun answer _ => ?_
  cases answer with
  | error exc => cases exc <;> exact meets_raise _
  | ok _ =>
    refine (meets_perform (o := .getAttr names.1 names.2) (fun _ => rfl) (P := fun answer =>
      ∀ object, answer = .ok object → Plain object) fun answer hanswer object hobject => ?_).bind
        fun answer hanswer => ?_
    · subst hobject
      exact hanswer object rfl
    · cases answer with
      | error exc => cases exc <;> exact meets_raise _
      | ok object => exact meets_pure (hanswer object rfl)

/-- Less may be said of the result. -/
theorem Meets.mono {P' : α → Prop} {p : Build O α} (h : Meets listed P p) (hP : ∀ a, P a → P' a) :
    Meets listed P' p := fun w₀ w => (h w₀ w).mono (fun a _ _ ha => hP a ha) fun _ _ _ he => he

/-- A plain value has no references that would have to be listed. -/
theorem Listed.of_plain {value : ConfigTree O} (h : Plain value) (path : String) :
    Listed listed path value := by
  intro r hr
  rw [h.references] at hr
  cases hr

/-- Resolving a value imports what is listed for it, and leaves no reference. -/
theorem meets_resolveValue {path : String} {value : ConfigTree O} (h : Listed listed path value) :
    Meets listed Plain (resolveValue value) := by
  induction value using induction_mem generalizing path with
  | leaf value => exact meets_pure trivial
  | list items ih =>
    have hitems : ∀ (rest : List (ConfigTree O)) (index : ℕ), (∀ item ∈ rest, item ∈ items) →
        (∀ r ∈ itemReferences path index rest, r.target ∈ listed) →
        Meets listed PlainItems (resolveItems rest) := by
      intro rest
      induction rest with
      | nil => exact fun _ _ _ => meets_pure trivial
      | cons item rest ihrest =>
        intro index hmem hrefs
        rw [itemReferences] at hrefs
        unfold resolveItems
        refine (ih item (hmem item List.mem_cons_self)
          fun r hr => hrefs r (List.mem_append_left _ hr)).bind fun item' hitem' => ?_
        refine (ihrest (index + 1) (fun i hi => hmem i (List.mem_cons_of_mem _ hi))
          fun r hr => hrefs r (List.mem_append_right _ hr)).bind fun rest' hrest' => ?_
        exact meets_pure ⟨hitem', hrest'⟩
    unfold resolveValue
    exact (hitems items 0 (fun _ hi => hi) h).bind fun items' hitems' => meets_pure hitems'
  | dict entries ih =>
    have hentries : ∀ rest : List (String × ConfigTree O), (∀ entry ∈ rest, entry ∈ entries) →
        (∀ r ∈ entryReferences path rest, r.target ∈ listed) →
        Meets listed (fun rest' => rest'.map Prod.fst = rest.map Prod.fst ∧ PlainEntries rest')
          (resolveEntries rest) := by
      intro rest
      induction rest with
      | nil => exact fun _ _ => meets_pure ⟨rfl, trivial⟩
      | cons entry rest ihrest =>
        obtain ⟨key, value⟩ := entry
        intro hmem hrefs
        rw [entryReferences] at hrefs
        unfold resolveEntries
        refine (ih (key, value) (hmem _ List.mem_cons_self)
          fun r hr => hrefs r (List.mem_append_left _ hr)).bind fun value' hvalue' => ?_
        refine (ihrest (fun e he => hmem e (List.mem_cons_of_mem _ he))
          fun r hr => hrefs r (List.mem_append_right _ hr)).bind fun rest' hrest' => ?_
        exact meets_pure ⟨by rw [List.map_cons, List.map_cons, hrest'.1], hvalue', hrest'.2⟩
    unfold resolveValue
    unfold Listed at h
    rw [importReferences] at h
    split
    · rename_i himport
      rw [if_pos himport] at h
      cases htarget : importTarget entries with
      | none => exact meets_raise _
      | some target =>
        refine meets_importObject ?_
        exact h ⟨path, target⟩ (by simp [htarget])
    · rename_i himport
      rw [if_neg himport] at h
      refine (hentries entries (fun _ he => he) h).bind fun entries' hentries' => meets_pure ⟨?_, ?_⟩
      · rw [IsImport, hentries'.1]
        exact himport
      · exact hentries'.2

section Builders

variable {py : Python O} {path : String}

/-- A section of the configuration is listed with it. -/
theorem Listed.child {entries : List (String × ConfigTree O)} (h : Listed listed path (.dict entries))
    {key : String} (hkey : key ≠ "import") {value : ConfigTree O}
    (hvalue : entries.lookup key = some value) : Listed listed (childPath path key) value := by
  intro r hr
  refine h r ?_
  have hmem := mem_of_lookup_eq_some hvalue
  have hnot : ¬ IsImport entries := by
    intro himport
    have hin := List.mem_map_of_mem (f := Prod.fst) hmem
    rw [himport] at hin
    exact hkey (List.mem_singleton.mp hin)
  rw [importReferences, if_neg hnot]
  exact mem_entryReferences.mpr ⟨_, hmem, hr⟩

/-- A value that is not `None` is there. -/
theorem notNone_eq_some {value : Option (ConfigTree O)} {found : ConfigTree O}
    (h : notNone value = some found) : value = some found := by
  unfold notNone at h
  split at h
  · cases h
  · exact h

/-- A resolved dictionary is plain, and its references were listed. -/
theorem meets_resolvedDict (method : String) {value : ConfigTree O} (h : Listed listed path value) :
    Meets listed (fun entries => Plain (.dict entries)) (resolvedDict py method value) := by
  refine (meets_resolveValue h).bind fun resolved hresolved => ?_
  cases resolved with
  | leaf value => exact meets_raise _
  | list items => exact meets_raise _
  | dict entries => exact meets_pure hresolved

/-- The dictionary of a listed value is listed. -/
theorem meets_dictOf (category : String) {value : ConfigTree O} (h : Listed listed path value) :
    Meets listed (fun entries => Listed listed path (.dict entries)) (dictOf py category value) := by
  cases value with
  | leaf value => exact meets_raise _
  | list items => exact meets_raise _
  | dict entries => exact meets_pure h

/-- The registry of a category is in a module of the factory. -/
theorem meets_getRegistry (category : String) :
    Meets listed (fun _ => True) (getRegistry category : Build O (ConfigTree O)) := by
  unfold getRegistry
  cases hentry : registryMap.lookup category with
  | none => exact meets_raise _
  | some entry =>
    have hmodule : entry.1 ∈ factoryModules :=
      List.mem_cons_of_mem _ (List.mem_map_of_mem (mem_of_lookup_eq_some hentry))
    refine (meets_importModule (.inr hmodule)).bind fun answer _ => ?_
    cases answer with
    | error exc => exact meets_raise _
    | ok _ =>
      refine (meets_perform (o := .getAttr entry.1 entry.2) (fun _ => rfl) (P := fun _ => True)
        fun _ _ => trivial).bind fun answer _ => ?_
      cases answer with
      | error exc => exact meets_raise _
      | ok registry => exact meets_pure trivial

/-- Building a component imports what is listed for it, and the registry of its category. -/
theorem meets_buildComponent (category : String) {cfg : ConfigTree O} (h : Listed listed path cfg) :
    Meets listed Plain (buildComponent py cfg category) := by
  refine (meets_dictOf category h).bind fun entries hentries =>
    (meets_resolvedDict "pop" hentries).bind fun cfg _ => ?_
  cases notNone (cfg.lookup "type") with
  | none => exact meets_raise _
  | some typeKey =>
    refine (meets_getRegistry category).bind fun registry _ => ?_
    refine (meets_perform (o := .create registry typeKey (without cfg "type")) (fun _ => rfl)
      (P := fun answer => ∀ object, answer = .ok object → Plain object)
      fun answer hanswer object hobject => ?_).bind fun answer hanswer => ?_
    · subst hobject
      exact hanswer object rfl
    · cases answer with
      | error exc => cases exc <;> exact meets_raise _
      | ok component => exact meets_pure (hanswer component rfl)

/-- So does building one that may be missing. -/
theorem meets_buildOptional (category : String) {cfg : Option (ConfigTree O)}
    (h : ∀ value, cfg = some value → ∃ path, Listed listed path value) :
    Meets listed (fun _ => True) (buildOptional py category cfg) := by
  cases cfg with
  | none => exact meets_pure trivial
  | some value =>
    obtain ⟨path, hvalue⟩ := h value rfl
    exact (meets_buildComponent category hvalue).bind fun component _ => meets_pure trivial

/-- Setting a key that is there to a value without references adds none. -/
theorem Plain.setEntry {entries : List (String × ConfigTree O)} (h : Plain (.dict entries))
    {key : String} (hkey : key ≠ "import") {value : ConfigTree O} (hvalue : Plain value) :
    Plain (.dict (OrderedDict.setEntry entries key value)) := by
  refine ⟨fun himport => ?_, plainEntries_iff.mpr fun entry hentry => ?_⟩
  · have hmem := (OrderedDict.mem_keys_setEntry entries key value key).mpr (.inl rfl)
    rw [himport] at hmem
    exact hkey (List.mem_singleton.mp hmem)
  · rcases mem_setEntry hentry with rfl | hentry
    · exact hvalue
    · exact plainEntries_iff.mp h.2 entry hentry

/-- A plain cache section stays so when it is normalized. -/
theorem plain_normalizeCache {entries : List (String × ConfigTree O)} (h : Plain (.dict entries)) :
    Plain (.dict (normalizeCache entries)) := by
  unfold normalizeCache
  split
  · exact h.setEntry (by simp) trivial
  · exact h

/-- A nested component is built from references that are listed for the whole. -/
theorem meets_buildNested {key category : String} (hkey : key ≠ "import")
    {normalize : List (String × ConfigTree O) → List (String × ConfigTree O)}
    (hnormalize : ∀ entries, Plain (.dict entries) → Plain (.dict (normalize entries)))
    {cfg : List (String × ConfigTree O)} (h : Plain (.dict cfg)) :
    Meets listed (fun cfg => Plain (.dict cfg)) (buildNested py key category normalize cfg) := by
  unfold buildNested
  split
  · rename_i entries hvalue
    refine (meets_buildComponent category (Listed.of_plain (hnormalize entries (h.lookup hvalue)) "")).bind
      fun component hcomponent => meets_pure (h.setEntry hkey hcomponent)
  · exact meets_pure h

/-- Building a middleware imports what is listed for it. -/
theorem meets_buildMiddlewareComponent {cfg : ConfigTree O} (h : Listed listed path cfg) :
    Meets listed Plain (buildMiddlewareComponent py cfg) := by
  refine (meets_dictOf "middleware" h).bind fun entries hentries =>
    (meets_resolvedDict "get" hentries).bind fun cfg hcfg => ?_
  have hbuild : ∀ {cfg : List (String × ConfigTree O)}, Plain (.dict cfg) →
      Meets listed Plain (buildComponent py (.dict cfg) "middleware") := fun hcfg =>
    meets_buildComponent "middleware" (Listed.of_plain hcfg "")
  split
  · refine (meets_buildNested (by simp) (fun _ h => h) hcfg).bind fun cfg hcfg => ?_
    exact (meets_buildNested (by simp) (fun _ h => plain_normalizeCache h) hcfg).bind
      fun cfg hcfg => hbuild hcfg
  · exact hbuild hcfg

/-- Building a deduplication with its store imports what is listed, and `DedupMiddleware`. -/
theorem meets_buildDedup {cfg : ConfigTree O} (h : Listed listed path cfg) :
    Meets listed Plain (buildDedup py cfg) := by
  refine (meets_dictOf "dedup" h).bind fun entries hentries =>
    (meets_resolvedDict "pop" hentries).bind fun cfg hcfg => ?_
  have hplain : ∀ (key : String) value, notNone (cfg.lookup key) = some value →
      ∃ path, Listed listed path value := fun key value hvalue =>
    ⟨"", Listed.of_plain (hcfg.lookup (notNone_eq_some hvalue)) ""⟩
  cases notNone (cfg.lookup "key") with
  | none => exact meets_raise _
  | some keySpec =>
    refine (meets_ofExcept (P := fun _ => True) fun _ _ => trivial).bind fun key _ => ?_
    refine (meets_buildOptional "dedup_store" (hplain "store")).bind fun store _ => ?_
    refine (meets_buildOptional "dedup_strategy" (hplain "strategy")).bind fun strategy _ => ?_
    refine (meets_perform (o := .createDedup key store strategy
      (without (without (without cfg "key") "store") "strategy")) (fun _ => rfl)
      (P := fun answer => ∀ object, answer = .ok object → Plain object)
      fun answer hanswer object hobject => ?_).bind fun answer hanswer => ?_
    · subst hobject
      exact hanswer object rfl
    · cases answer with
      | error exc => exact meets_raise _
      | ok component => exact meets_pure (hanswer component rfl)

/-- So does building the component of the section. -/
theorem meets_buildDedupComponent {cfg : ConfigTree O} (h : Listed listed path cfg) :
    Meets listed Plain (buildDedupComponent py cfg) := by
  refine (meets_importModule (.inr List.mem_cons_self)).bind fun answer _ => ?_
  cases answer with
  | error exc => exact meets_raise _
  | ok _ => exact meets_buildDedup h

/-- No object yields values with references when it is iterated. -/
def Python.YieldsPlain (py : Python O) : Prop :=
  ∀ o items, py.iterate o = some items → ∀ item ∈ items, Plain item

/-- What a listed value yields is listed. -/
theorem listed_of_iterate (hpy : py.YieldsPlain) {value : ConfigTree O} (h : Listed listed path value)
    {items : List (ConfigTree O)} (hitems : iterate py value = some items) :
    ∀ item ∈ items, ∃ path, Listed listed path item := by
  have hplain : ∀ items' : List (ConfigTree O), (∀ item ∈ items', Plain item) →
      ∀ item ∈ items', ∃ path, Listed listed path item := fun items' hall item hitem =>
    ⟨"", Listed.of_plain (hall item hitem) ""⟩
  cases value with
  | list items' =>
    obtain rfl := Option.some.inj hitems
    have hall : ∀ (rest : List (ConfigTree O)) (index : ℕ),
        (∀ r ∈ itemReferences path index rest, r.target ∈ listed) →
        ∀ item ∈ rest, ∃ path, Listed listed path item := by
      intro rest
      induction rest with
      | nil => simp
      | cons item rest ih =>
        intro index hrefs
        rw [itemReferences] at hrefs
        refine List.forall_mem_cons.mpr
          ⟨⟨_, fun r hr => hrefs r (List.mem_append_left _ hr)⟩, ?_⟩
        exact ih (index + 1) fun r hr => hrefs r (List.mem_append_right _ hr)
    exact hall items' 0 h
  | dict entries =>
    obtain rfl := Option.some.inj hitems
    exact hplain _ (List.forall_mem_map.mpr fun _ _ => trivial)
  | leaf value =>
    cases value with
    | none => cases hitems
    | bool b => cases hitems
    | str s =>
      obtain rfl := Option.some.inj hitems
      exact hplain _ (List.forall_mem_map.mpr fun _ _ => trivial)
    | other o => exact hplain items (hpy o items hitems)

/-- The items of a listed section are listed. -/
theorem meets_itemsOf (hpy : py.YieldsPlain) {value : Option (ConfigTree O)}
    (h : ∀ found, value = some found → Listed listed path found) :
    Meets listed (fun items => ∀ item ∈ items, ∃ path, Listed listed path item)
      (itemsOf py value) := by
  unfold itemsOf
  split
  · exact meets_pure (by simp)
  · rename_i found
    split
    · rename_i items hitems
      exact meets_pure (listed_of_iterate hpy (h found rfl) hitems)
    · exact meets_raise _

/-- Building all items imports what the builds of the items do. -/
theorem meets_buildAll {build : ConfigTree O → Build O (ConfigTree O)} {items : List (ConfigTree O)}
    (h : ∀ item ∈ items, Meets listed Plain (build item)) :
    Meets listed (fun _ => True) (buildAll build items) := by
  induction items with
  | nil => exact meets_pure trivial
  | cons item items ih =>
    rw [List.forall_mem_cons] at h
    exact h.1.bind fun _ _ => (ih h.2).bind fun _ _ => meets_pure trivial

/-- With its default sink a listed dead-letter section stays so. -/
theorem listed_defaultDlqSink {dlq : List (String × ConfigTree O)}
    (h : Listed listed path (.dict dlq)) : Listed listed path (defaultDlqSink dlq) := by
  intro r hr
  rw [defaultDlqSink, importReferences, if_neg (by simp [IsImport])] at hr
  obtain ⟨entry, hentry, hr⟩ := mem_entryReferences.mp hr
  rcases List.mem_cons.mp hentry with rfl | hentry
  · cases hr
  · rw [List.mem_singleton.mp hentry] at hr
    cases hpath : dlq.lookup "path" with
    | none =>
      rw [hpath] at hr
      cases hr
    | some value =>
      rw [hpath] at hr
      exact h.child (by simp) hpath r hr

/-- Populating a pipeline imports what is listed for its configuration. -/
theorem meets_populateComponents (hpy : py.YieldsPlain) {config : List (String × ConfigTree O)}
    (h : Listed listed path (.dict config)) :
    Meets listed (fun _ => True) (populateComponents py config) := by
  have hchild : ∀ key, key ≠ "import" → ∀ value, config.lookup key = some value →
      Listed listed (childPath path key) value := fun key hkey value hvalue => h.child hkey hvalue
  have hsource : Meets listed (fun _ => True) (buildSource py config) :=
    meets_buildOptional "source" fun value hvalue =>
      ⟨_, hchild "source" (by simp) value (notNone_eq_some hvalue)⟩
  have hmiddlewares : Meets listed (fun _ => True) (buildMiddlewares py config) := by
    refine (meets_itemsOf hpy (hchild "middlewares" (by simp))).bind fun items hitems => ?_
    refine (meets_buildAll fun item hitem => ?_).bind fun middlewares _ => ?_
    · obtain ⟨path', hitem'⟩ := hitems item hitem
      exact meets_buildMiddlewareComponent hitem'
    · cases hdedup : notNone (config.lookup "dedup") with
      | none => exact meets_pure trivial
      | some cfg =>
        exact (meets_buildDedupComponent (hchild "dedup" (by simp) cfg (notNone_eq_some hdedup))).bind
          fun _ _ => meets_pure trivial
  have hsinks : Meets listed (fun _ => True) (buildSinks py config) := by
    refine (meets_itemsOf hpy (hchild "sinks" (by simp))).bind fun items hitems => ?_
    refine meets_buildAll fun item hitem => ?_
    obtain ⟨path', hitem'⟩ := hitems item hitem
    exact meets_buildComponent "sink" hitem'
  have hdlq : Meets listed (fun _ => True) (buildDlq py config) := by
    unfold buildDlq
    split
    · rename_i dlq hdlq
      have hlisted := hchild "dlq" (by simp) _ hdlq
      split
      · split
        · rename_i sink hsink
          refine meets_buildOptional "sink" fun value hvalue => ?_
          cases hvalue
          exact ⟨_, hlisted.child (by simp) hsink⟩
        · refine meets_buildOptional "sink" fun value hvalue => ?_
          cases hvalue
          exact ⟨_, listed_defaultDlqSink hlisted⟩
      · exact meets_pure trivial
    · exact meets_pure trivial
  exact hsource.bind fun _ _ => hmiddlewares.bind fun _ _ => hsinks.bind fun _ _ =>
    hdlq.bind fun _ _ => meets_pure trivial

end Builders

/-- What is imported while the components of a pipeline are built is listed for its configuration, or it
is a module of the factory: where no object that is given, imported or built contains a reference, each
module that is imported is that of a listed reference, of the registry of a category, or of
`DedupMiddleware`. -/
theorem populateComponents_imports (py : Python O) (config : List (String × ConfigTree O))
    (h : Handler (Op O) Op.Ret Empty) (hpy : py.YieldsPlain)
    (hplain : ∀ e ∈ ((populateComponents py config).run h ⟨(), []⟩).2.trace,
      ∀ object, objectOf e = some object → Plain object) :
    ∀ e ∈ ((populateComponents py config).run h ⟨(), []⟩).2.trace, ∀ name,
      importedModule e = some name →
        (∃ r ∈ importReferences "" (.dict config), ∃ attr,
          splitImportPath r.target = .ok (name, attr)) ∨ name ∈ factoryModules := by
  let listed := (importReferences "" (.dict config)).map ImportReference.target
  have hlisted : Listed listed "" (.dict config) := fun r hr => List.mem_map_of_mem hr
  have hmeets : Meets listed (fun _ => True) (populateComponents py config) :=
    meets_populateComponents hpy hlisted
  obtain ⟨t, ht, hpost⟩ := (hmeets ⟨(), []⟩ ⟨(), []⟩).run_sound (fun _ => rfl) (fun _ _ _ => trivial) h
  rw [ht] at hplain ⊢
  rw [List.nil_append] at hplain ⊢
  have hassume : Along (importContract O listed).assume [] t := by
    refine along_iff.mpr fun t₁ e t₂ heq => hplain e ?_
    rw [heq]
    simp
  intro e he name hname
  obtain ⟨t₁, t₂, heq⟩ := List.append_of_mem he
  rcases along_iff.mp (hpost hassume).1 t₁ e t₂ heq name hname with hexpected | hfactory
  · obtain ⟨target, htarget, attr, hsplit⟩ := hexpected
    obtain ⟨r, hr, rfl⟩ := List.mem_map.mp htarget
    exact .inl ⟨r, hr, attr, hsplit⟩
  · exact .inr hfactory

/-- Imports and factories that give numbers. -/
def givesNumbers : Handler (Op ℕ) Op.Ret Empty := fun t o =>
  match o with
  | .importModule _ => .ok ()
  | .getAttr _ _ => .ok (.leaf (.other t.length))
  | .create _ _ _ => .ok (.leaf (.other t.length))
  | .createDedup _ _ _ _ => .ok (.leaf (.other t.length))

/-- What Python says about numbers. -/
def numbers : Python ℕ where
  typeName := fun _ => "int"
  callable := fun _ => false
  truthy := fun n => n != 0
  iterate := fun _ => none
  text := fun _ => ""

/-- A pipeline with a middleware that imports its function, and with a sink. -/
theorem populateComponents_imports_cleaning :
    collectImportReferences cleaningPipeline.tree "" = ["middlewares.0.fn=app.rows:clean"] ∧
      ((populateComponents numbers cleaningPipeline.entries).run givesNumbers
        ⟨(), []⟩).2.trace.filterMap importedModule =
          ["app.rows", "agora.middlewares", "agora.sinks"] ∧
      ∀ e ∈ ((populateComponents numbers cleaningPipeline.entries).run givesNumbers ⟨(), []⟩).2.trace,
        ∀ name, importedModule e = some name →
          (∃ r ∈ importReferences "" (.dict cleaningPipeline.entries), ∃ attr,
            splitImportPath r.target = .ok (name, attr)) ∨ name ∈ factoryModules := by
  refine ⟨by decide, by decide +kernel, populateComponents_imports numbers cleaningPipeline.entries
    givesNumbers nofun fun e he object hobject => ?_⟩
  obtain ⟨t, ht, hanswered⟩ :=
    (populateComponents numbers cleaningPipeline.entries).answered_run givesNumbers ⟨(), []⟩
  rw [ht, List.nil_append] at he
  obtain ⟨t₁, t₂, rfl⟩ := List.append_of_mem he
  cases e with
  | mark m => exact m.elim
  | called o r =>
    obtain rfl := along_iff.mp hanswered t₁ _ t₂ rfl o r rfl
    cases o <;> cases hobject <;> trivial

end AgoraEtl.Config.Components
