import AgoraEtl.Config.References
import AgoraEtl.Effect.Safety
import AgoraEtl.Failures

/-!
# Components built from a configuration

`resolveValue` replaces the import references of a value by the objects they stand for, and the builders
make a component of what comes out.  Importing a module runs its code, so that every import is an event of
the trace.

The references that are listed for review are what is imported: a value imports the modules of its listed
references in their order, and building the components of a pipeline imports only modules that its
configuration lists, and the modules of the factory itself, which hold the registries and the middleware
for duplicates.  Building resolves some values twice; this imports nothing more as long as no object that
was given, imported or built contains a reference itself.
-/

namespace AgoraEtl.Config

open DataTree Effect Program

variable {O : Type}

/-- The exceptions that the builders tell apart. -/
inductive BuildError where
  | config (message : String)
  | importError (message : String)
  | attributeError (message : String)
  | typeError (message : String)
  | other (exc : Exc)

/-- The key of a deduplication: an attribute, or a callable. -/
inductive DedupKey (O : Type) where
  | attribute (name : String)
  | function (value : ConfigTree O)

namespace Components

/-- What a builder asks for: to import a module, to get an attribute of it, to create a component of a
registry with the remaining settings, and to create the middleware for duplicates. -/
inductive Op (O : Type) where
  | importModule (name : String)
  | getAttr (moduleName attr : String)
  | create (registry typeKey : ConfigTree O) (settings : List (String × ConfigTree O))
  | createDedup (key : DedupKey O) (store strategy : Option (ConfigTree O))
      (settings : List (String × ConfigTree O))

abbrev Op.Ret : Op O → Type
  | importModule _ => Except BuildError Unit
  | getAttr _ _ => Except BuildError (ConfigTree O)
  | create _ _ _ => Except BuildError (ConfigTree O)
  | createDedup _ _ _ _ => Except BuildError (ConfigTree O)

abbrev Build (O α : Type) : Type := Program (Op O) Op.Ret Empty Unit BuildError α

abbrev BuildTrace (O : Type) : Type := Trace (Op O) Op.Ret Empty

/-- What Python says about values: the name of the type of an object, whether it is callable or true, the
items it yields if it can be iterated, and the text of a value. -/
structure Python (O : Type) where
  typeName : O → String
  callable : O → Bool
  truthy : O → Bool
  iterate : O → Option (List (ConfigTree O))
  text : ConfigTree O → String

/-- `type(value).__name__`. -/
def Python.typeNameOf (py : Python O) : ConfigTree O → String
  | .dict _ => "dict"
  | .list _ => "list"
  | .leaf .none => "NoneType"
  | .leaf (.str _) => "str"
  | .leaf (.bool _) => "bool"
  | .leaf (.other o) => py.typeName o

/-- `bool(value)`. -/
def Python.isTrue (py : Python O) : ConfigTree O → Bool
  | .dict entries => !entries.isEmpty
  | .list items => !items.isEmpty
  | .leaf .none => false
  | .leaf (.str s) => s != ""
  | .leaf (.bool b) => b
  | .leaf (.other o) => py.truthy o

/-! ### References -/

def badImportPath (importPath : String) : BuildError :=
  .config s!"Import reference must use 'module:attribute' or 'module.attribute', got '{importPath}'."

/-- The two sides of the first colon, or else of the last dot. -/
def splitAtSeparator (importPath : List Char) : Option (List Char × List Char) :=
  match importPath.span (· ≠ ':') with
  | (moduleName, _ :: attr) => some (moduleName, attr)
  | (_, []) =>
    match importPath.reverse.span (· ≠ '.') with
    | (attr, _ :: moduleName) => some (moduleName.reverse, attr.reverse)
    | (_, []) => none

/-- `_split_import_path`. -/
def splitImportPath (importPath : String) : Except BuildError (String × String) :=
  match splitAtSeparator importPath.toList with
  | some (moduleName, attr) =>
    if moduleName = [] ∨ attr = [] then .error (badImportPath importPath)
    else .ok (String.ofList moduleName, String.ofList attr)
  | none => .error (badImportPath importPath)

/-- `_import_object`. -/
def importObject (importPath : String) : Build O (ConfigTree O) := do
  let names ← ofExcept (splitImportPath importPath)
  match ← perform (Op.importModule names.1) with
  | .error (.importError text) =>
    raise (.config s!"Cannot import module '{names.1}' from '{importPath}': {text}")
  | .error exc => raise exc
  | .ok () =>
    match ← perform (Op.getAttr names.1 names.2) with
    | .error (.attributeError _) =>
      raise (.config (s!"Module '{names.1}' does not define attribute '{names.2}' " ++
        s!"referenced by '{importPath}'."))
    | .error exc => raise exc
    | .ok object => pure object

mutual

/-- `resolve_value`. -/
def resolveValue : ConfigTree O → Build O (ConfigTree O)
  | .leaf value => pure (.leaf value)
  | .list items => do
    let items ← resolveItems items
    pure (.list items)
  | .dict entries =>
    if IsImport entries then
      match importTarget entries with
      | some importPath => importObject importPath
      | none =>
        raise (.config "Import reference must be a string like 'my_package.module:attribute'.")
    else do
      let entries ← resolveEntries entries
      pure (.dict entries)

def resolveItems : List (ConfigTree O) → Build O (List (ConfigTree O))
  | [] => pure []
  | item :: items => do
    let item ← resolveValue item
    let items ← resolveItems items
    pure (item :: items)

def resolveEntries : List (String × ConfigTree O) → Build O (List (String × ConfigTree O))
  | [] => pure []
  | (key, value) :: entries => do
    let value ← resolveValue value
    let entries ← resolveEntries entries
    pure ((key, value) :: entries)

end

/-! ### Registries -/

/-- `_REGISTRY_MAP`. -/
def registryMap : List (String × String × String) :=
  [("source", "agora.sources", "source_registry"),
    ("sink", "agora.sinks", "sink_registry"),
    ("middleware", "agora.middlewares", "middleware_registry"),
    ("ai_provider", "agora.ai", "ai_provider_registry"),
    ("ai_cache", "agora.ai", "ai_cache_registry"),
    ("dedup_store", "agora.middlewares.dedup.stores", "dedup_store_registry"),
    ("dedup_strategy", "agora.middlewares.dedup.strategies", "dedup_strategy_registry"),
    ("runner", "agora.runner", "runner_registry")]

/-- The error of a category that has no registry. -/
def unknownCategory (category : String) : BuildError :=
  .config (s!"Unknown component category '{category}'. Available: [" ++
    ", ".intercalate (registryMap.map fun entry => s!"'{entry.1}'") ++ "]")

/-- `get_registry`. -/
def getRegistry (category : String) : Build O (ConfigTree O) := do
  match registryMap.lookup category with
  | none => raise (unknownCategory category)
  | some (modulePath, attr) =>
    match ← perform (Op.importModule modulePath) with
    | .error exc => raise exc
    | .ok () =>
      match ← perform (Op.getAttr modulePath attr) with
      | .error exc => raise exc
      | .ok registry => pure registry

/-- The module of `DedupMiddleware`. -/
def dedupModule : String := "agora.middlewares.dedup.middleware"

/-- The modules that the factory imports on its own account. -/
def factoryModules : List String := dedupModule :: registryMap.map fun entry => entry.2.1

/-! ### Components -/

variable (py : Python O)

/-- The entries without a key, as `pop` leaves them. -/
def without (entries : List (String × ConfigTree O)) (key : String) : List (String × ConfigTree O) :=
  entries.filter fun entry => entry.1 ≠ key

/-- `value`, unless it is `None`. -/
def notNone : Option (ConfigTree O) → Option (ConfigTree O)
  | some (.leaf .none) => none
  | value => value

/-- The entries of a dictionary, or the exception for another value. -/
def dictOf (category : String) : ConfigTree O → Build O (List (String × ConfigTree O))
  | .dict entries => pure entries
  | value => raise (.config s!"Expected a dict for {category} config, got {py.typeNameOf value}")

/-- The exception of the method that is called next on an object that took the place of the whole
dictionary: the `pop` of a list takes no default, and other objects do not have the method. -/
def noDictMethod (method : String) : ConfigTree O → BuildError
  | .list items =>
    if method = "pop" then .typeError "pop expected at most 1 argument, got 2"
    else .attributeError s!"'{py.typeNameOf (.list items)}' object has no attribute '{method}'"
  | object => .attributeError s!"'{py.typeNameOf object}' object has no attribute '{method}'"

/-- The entries of a resolved dictionary, on which a method is called next. -/
def resolvedDict (method : String) (value : ConfigTree O) : Build O (List (String × ConfigTree O)) := do
  match ← resolveValue value with
  | .dict entries => pure entries
  | object => raise (noDictMethod py method object)

/-- `build_component`. -/
def buildComponent (cfg : ConfigTree O) (category : String) : Build O (ConfigTree O) := do
  let entries ← dictOf py category cfg
  let cfg ← resolvedDict py "pop" (.dict entries)
  match notNone (cfg.lookup "type") with
  | none =>
    let rest := py.text (.dict (without cfg "type"))
    raise (.config s!"Missing 'type' key in {category} config: {rest}")
  | some typeKey => do
    let registry ← getRegistry category
    match ← perform (Op.create registry typeKey (without cfg "type")) with
    | .error (.typeError text) => raise (.config
        s!"Failed to instantiate {category} plugin '{py.text typeKey}': {text}")
    | .error exc => raise exc
    | .ok component => pure component

/-- The settings of the middleware with the component that is built from one of them, if it is a
dictionary. -/
def buildNested (key category : String)
    (normalize : List (String × ConfigTree O) → List (String × ConfigTree O))
    (cfg : List (String × ConfigTree O)) : Build O (List (String × ConfigTree O)) :=
  match cfg.lookup key with
  | some (.dict entries) => do
    let component ← buildComponent py (.dict (normalize entries)) category
    pure (OrderedDict.setEntry cfg key component)
  | _ => pure cfg

/-- A cache that names a backend and no type is of the type `backend`. -/
def normalizeCache (entries : List (String × ConfigTree O)) : List (String × ConfigTree O) :=
  if (entries.lookup "type").isNone ∧ (entries.lookup "backend").isSome then
    OrderedDict.setEntry entries "type" (.leaf (.str "backend"))
  else entries

/-- The type is a string with this prefix. -/
def isAiType : Option (ConfigTree O) → Bool
  | some (.leaf (.str s)) => "ai_".isPrefixOf s
  | _ => false

/-- `build_middleware_component`. -/
def buildMiddlewareComponent (cfg : ConfigTree O) : Build O (ConfigTree O) := do
  let entries ← dictOf py "middleware" cfg
  let cfg ← resolvedDict py "get" (.dict entries)
  if isAiType (cfg.lookup "type") then do
    let cfg ← buildNested py "provider" "ai_provider" id cfg
    let cfg ← buildNested py "cache" "ai_cache" normalizeCache cfg
    buildComponent py (.dict cfg) "middleware"
  else buildComponent py (.dict cfg) "middleware"

/-- The key of a deduplication, as `key_spec` says. -/
def dedupKey : ConfigTree O → Except BuildError (DedupKey O)
  | .leaf (.str name) =>
    if "lambda".isPrefixOf name then .error (badKey (.leaf (.str name))) else .ok (.attribute name)
  | .leaf (.other o) =>
    if py.callable o then .ok (.function (.leaf (.other o))) else .error (badKey (.leaf (.other o)))
  | value => .error (badKey value)
where
  badKey (value : ConfigTree O) : BuildError :=
    .config ("'key' in dedup config must be a callable or dotted attribute " ++
      s!"name, got {py.text value}")

/-- The component of a section, unless it is missing. -/
def buildOptional (category : String) : Option (ConfigTree O) → Build O (Option (ConfigTree O))
  | none => pure none
  | some cfg => do
    let component ← buildComponent py cfg category
    pure (some component)

/-- `build_dedup_component`, once `DedupMiddleware` is imported. -/
def buildDedup (cfg : ConfigTree O) : Build O (ConfigTree O) := do
  let entries ← dictOf py "dedup" cfg
  let cfg ← resolvedDict py "pop" (.dict entries)
  match notNone (cfg.lookup "key") with
  | none => raise (.config "Missing 'key' in dedup config")
  | some keySpec => do
    let key ← ofExcept (dedupKey py keySpec)
    let store ← buildOptional py "dedup_store" (notNone (cfg.lookup "store"))
    let strategy ← buildOptional py "dedup_strategy" (notNone (cfg.lookup "strategy"))
    match ← perform (Op.createDedup key store strategy
      (without (without (without cfg "key") "store") "strategy")) with
    | .error exc => raise exc
    | .ok component => pure component

/-- `build_dedup_component`. -/
def buildDedupComponent (cfg : ConfigTree O) : Build O (ConfigTree O) := do
  match ← perform (Op.importModule dedupModule) with
  | .error exc => raise exc
  | .ok () => buildDedup py cfg

/-! ### The components of a pipeline -/

/-- What a value yields when it is iterated: the items of a list, the keys of a dictionary, and the
characters of a text. -/
def iterate : ConfigTree O → Option (List (ConfigTree O))
  | .list items => some items
  | .dict entries => some (entries.map fun entry => .leaf (.str entry.1))
  | .leaf (.str s) => some (s.toList.map fun c => .leaf (.str (String.singleton c)))
  | .leaf (.other o) => py.iterate o
  | .leaf _ => none

/-- The items of a section, if it is there. -/
def itemsOf : Option (ConfigTree O) → Build O (List (ConfigTree O))
  | none => pure []
  | some value =>
    match iterate py value with
    | some items => pure items
    | none => raise (.typeError s!"'{py.typeNameOf value}' object is not iterable")

/-- Build the components of a list one after the other. -/
def buildAll (build : ConfigTree O → Build O (ConfigTree O)) :
    List (ConfigTree O) → Build O (List (ConfigTree O))
  | [] => pure []
  | cfg :: cfgs => do
    let component ← build cfg
    let components ← buildAll build cfgs
    pure (component :: components)

/-- `build_source`. -/
def buildSource (config : List (String × ConfigTree O)) : Build O (Option (ConfigTree O)) :=
  buildOptional py "source" (notNone (config.lookup "source"))

/-- `build_middlewares`. -/
def buildMiddlewares (config : List (String × ConfigTree O)) : Build O (List (ConfigTree O)) := do
  let items ← itemsOf py (config.lookup "middlewares")
  let middlewares ← buildAll (buildMiddlewareComponent py) items
  match notNone (config.lookup "dedup") with
  | none => pure middlewares
  | some cfg => do
    let dedup ← buildDedupComponent py cfg
    pure (middlewares ++ [dedup])

/-- `build_sinks`. -/
def buildSinks (config : List (String × ConfigTree O)) : Build O (List (ConfigTree O)) := do
  let items ← itemsOf py (config.lookup "sinks")
  buildAll (fun cfg => buildComponent py cfg "sink") items

/-- The settings of the sink for dead letters, where none are given. -/
def defaultDlqSink (dlq : List (String × ConfigTree O)) : ConfigTree O :=
  .dict [("type", .leaf (.str "sqlite_dlq")),
    ("path", (dlq.lookup "path").getD (.leaf (.str ".agora_dlq.db")))]

/-- `build_dlq`, up to the sink that it creates. -/
def buildDlq (config : List (String × ConfigTree O)) : Build O (Option (ConfigTree O)) :=
  match config.lookup "dlq" with
  | some (.dict dlq) =>
    if py.isTrue ((dlq.lookup "enabled").getD (.leaf (.bool true))) then
      match dlq.lookup "sink" with
      | some (.dict sink) => buildOptional py "sink" (some (.dict sink))
      | _ => buildOptional py "sink" (some (defaultDlqSink dlq))
    else pure none
  | _ => pure none

/-- The components that `populate_container_from_config` builds. -/
structure PipelineComponents (O : Type) where
  source : Option (ConfigTree O)
  middlewares : List (ConfigTree O)
  sinks : List (ConfigTree O)
  dlqSink : Option (ConfigTree O)

/-- `populate_container_from_config`, as far as it builds components. -/
def populateComponents (config : List (String × ConfigTree O)) : Build O (PipelineComponents O) := do
  let source ← buildSource py config
  let middlewares ← buildMiddlewares py config
  let sinks ← buildSinks py config
  let dlqSink ← buildDlq py config
  pure ⟨source, middlewares, sinks, dlqSink⟩

end Components

end AgoraEtl.Config
