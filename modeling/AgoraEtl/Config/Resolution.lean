import AgoraEtl.Config.Imports

/-!
# How a value is resolved

`fill` puts objects in the places of the references of a value, in the order in which these are listed.
Resolving a value imports a first part of the listed references in their order; if it returns, it has
imported all of them, and what it returns is the value filled with the objects that were given.
-/

namespace AgoraEtl.Config.Components

open DataTree Effect Program

variable {O α β : Type}

/-! ### Filling in objects -/

mutual

/-- The value with its references replaced by the first objects, and the objects that are left. -/
def fill : ConfigTree O → List (ConfigTree O) → ConfigTree O × List (ConfigTree O)
  | .leaf value, objects => (.leaf value, objects)
  | .list items, objects =>
    let (items, objects) := fillItems items objects
    (.list items, objects)
  | .dict entries, objects =>
    if IsImport entries then
      match objects with
      | [] => (.dict entries, [])
      | object :: objects => (object, objects)
    else
      let (entries, objects) := fillEntries entries objects
      (.dict entries, objects)

def fillItems : List (ConfigTree O) → List (ConfigTree O) → List (ConfigTree O) × List (ConfigTree O)
  | [], objects => ([], objects)
  | item :: items, objects =>
    let (item, objects) := fill item objects
    let (items, objects) := fillItems items objects
    (item :: items, objects)

def fillEntries : List (String × ConfigTree O) → List (ConfigTree O) →
    List (String × ConfigTree O) × List (ConfigTree O)
  | [], objects => ([], objects)
  | (key, value) :: entries, objects =>
    let (value, objects) := fill value objects
    let (entries, objects) := fillEntries entries objects
    ((key, value) :: entries, objects)

end

/-! ### Following a list of references -/

/-- The modules that are imported along a trace. -/
def importsOf (t : BuildTrace O) : List String := t.filterMap importedModule

/-- The objects that are given along a trace. -/
def objectsOf (t : BuildTrace O) : List (ConfigTree O) := t.filterMap objectOf

@[simp] theorem importsOf_append (t t' : BuildTrace O) :
    importsOf (t ++ t') = importsOf t ++ importsOf t' := List.filterMap_append

@[simp] theorem objectsOf_append (t t' : BuildTrace O) :
    objectsOf (t ++ t') = objectsOf t ++ objectsOf t' := List.filterMap_append

/-- The module is that of the reference. -/
def ModuleOf (r : ImportReference) (name : String) : Prop :=
  ∃ attr, splitImportPath r.target = .ok (name, attr)

/-- The program imports a first part of the references, and all of them if it returns; it then returns
what the objects that were given are made into. -/
def Follows (refs : List ImportReference) (made : List (ConfigTree O) → α × List (ConfigTree O))
    (p : Build O α) : Prop :=
  ∀ h w, ∃ t done rest, (p.run h w).2.trace = w.trace ++ t ∧ refs = done ++ rest ∧
    List.Forall₂ ModuleOf done (importsOf t) ∧
    ∀ a, (p.run h w).1 = .returned a → rest = [] ∧ ∀ more, made (objectsOf t ++ more) = (a, more)

theorem follows_pure (a : α) : Follows [] (fun objects => (a, objects)) (pure a : Build O α) := by
  intro h w
  refine ⟨[], [], [], by simp, rfl, .nil, fun a' ha' => ⟨rfl, fun more => ?_⟩⟩
  cases ha'
  rfl

theorem follows_raise (refs : List ImportReference)
    (made : List (ConfigTree O) → α × List (ConfigTree O)) (e : BuildError) :
    Follows refs made (raise e : Build O α) := by
  intro h w
  exact ⟨[], [], refs, by simp, rfl, .nil, fun _ ha => by cases ha⟩

/-- One program after the other follows one list after the other. -/
theorem Follows.bind {refs refs' : List ImportReference}
    {made : List (ConfigTree O) → α × List (ConfigTree O)}
    {made' : α → List (ConfigTree O) → β × List (ConfigTree O)} {p : Build O α} {f : α → Build O β}
    (hp : Follows refs made p) (hf : ∀ a, Follows refs' (made' a) (f a)) :
    Follows (refs ++ refs') (fun objects => made' (made objects).1 (made objects).2) (p >>= f) := by
  intro h w
  obtain ⟨t, done, rest, ht, hrefs, hdone, hreturned⟩ := hp h w
  cases hrun : p.run h w with
  | mk outcome w' =>
    rw [hrun] at ht hreturned
    cases outcome with
    | raised e =>
      refine ⟨t, done, rest ++ refs', ?_, by rw [hrefs, List.append_assoc], hdone, ?_⟩
      · rw [run_bind, hrun, ht]
      · rw [run_bind, hrun]
        simp
    | hung =>
      refine ⟨t, done, rest ++ refs', ?_, by rw [hrefs, List.append_assoc], hdone, ?_⟩
      · rw [run_bind, hrun, ht]
      · rw [run_bind, hrun]
        simp
    | returned a =>
      obtain ⟨hrest, hmade⟩ := hreturned a rfl
      obtain ⟨t', done', rest', ht', hrefs', hdone', hreturned'⟩ := hf a h w'
      rw [run_bind_returned h hrun]
      refine ⟨t ++ t', done ++ done', rest', ?_, ?_, ?_, fun b hb => ?_⟩
      · rw [ht', ht, List.append_assoc]
      · rw [hrefs, hrest, hrefs', List.append_nil, List.append_assoc]
      · rw [importsOf_append]
        exact List.rel_append hdone hdone'
      · obtain ⟨hrest', hmade'⟩ := hreturned' b hb
        refine ⟨hrest', fun more => ?_⟩
        rw [objectsOf_append, List.append_assoc]
        show made' (made (objectsOf t ++ (objectsOf t' ++ more))).1 _ = (b, more)
        rw [hmade]
        exact hmade' more

theorem Follows.map {refs : List ImportReference} {made : List (ConfigTree O) → α × List (ConfigTree O)}
    {p : Build O α} (hp : Follows refs made p) (f : α → β) :
    Follows refs (fun objects => (f (made objects).1, (made objects).2)) (p >>= fun a => pure (f a)) := by
  have h : Follows (refs ++ []) (fun objects => (f (made objects).1, (made objects).2))
      (p >>= fun a => pure (f a)) := hp.bind fun a => follows_pure (f a)
  rwa [List.append_nil] at h

/-! ### Resolving -/

/-- The object of a reference is imported from the module of the reference. -/
theorem follows_importObject (r : ImportReference) {entries : List (String × ConfigTree O)}
    (himport : IsImport entries) :
    Follows [r] (fill (.dict entries)) (importObject r.target : Build O (ConfigTree O)) := by
  intro h w
  unfold importObject
  cases hsplit : splitImportPath r.target with
  | error e => exact ⟨[], [], [r], by simp, rfl, .nil, by simp⟩
  | ok names =>
    have hmodule : List.Forall₂ ModuleOf [r] [names.1] := .cons ⟨names.2, hsplit⟩ .nil
    rw [ofExcept_ok, run_bind_returned h (run_ret h w names), run_bind_returned h (run_perform h w _)]
    cases himported : h w.trace (.importModule names.1) with
    | error exc =>
      refine ⟨[.called (.importModule names.1) (.error exc)], [r], [], ?_, rfl, hmodule, ?_⟩
      · cases exc <;> simp
      · cases exc <;> simp
    | ok _ =>
      dsimp only
      rw [run_bind_returned h (run_perform h _ _)]
      cases hfound : h (w.called (.importModule names.1) (.ok ())).trace (.getAttr names.1 names.2) with
      | error exc =>
        refine ⟨[.called (.importModule names.1) (.ok ()),
          .called (.getAttr names.1 names.2) (.error exc)], [r], [], ?_, rfl, hmodule, ?_⟩
        · cases exc <;> simp
        · cases exc <;> simp
      | ok object =>
        refine ⟨[.called (.importModule names.1) (.ok ()),
          .called (.getAttr names.1 names.2) (.ok object)], [r], [], by simp, rfl, hmodule,
          fun object' hobject' => ⟨rfl, fun more => ?_⟩⟩
        cases hobject'
        show fill (.dict entries) (object :: more) = (object, more)
        rw [fill, if_pos himport]

/-- A value is resolved by importing its references in the order in which they are listed, and by
putting the objects in their places. -/
theorem follows_resolveValue (path : String) (value : ConfigTree O) :
    Follows (importReferences path value) (fill value) (resolveValue value) := by
  induction value using induction_mem generalizing path with
  | leaf value => exact follows_pure (DataTree.leaf value)
  | list items ih =>
    have hitems : ∀ (rest : List (ConfigTree O)) (index : ℕ), (∀ item ∈ rest, item ∈ items) →
        Follows (itemReferences path index rest) (fillItems rest) (resolveItems rest) := by
      intro rest
      induction rest with
      | nil => exact fun _ _ => follows_pure []
      | cons item rest ihrest =>
        intro index hmem
        unfold resolveItems
        exact (ih item (hmem item List.mem_cons_self) (childPath path (toString index))).bind fun item' =>
          (ihrest (index + 1) fun i hi => hmem i (List.mem_cons_of_mem _ hi)).map (item' :: ·)
    unfold resolveValue
    exact (hitems items 0 fun _ hi => hi).map DataTree.list
  | dict entries ih =>
    have hentries : ∀ rest : List (String × ConfigTree O), (∀ entry ∈ rest, entry ∈ entries) →
        Follows (entryReferences path rest) (fillEntries rest) (resolveEntries rest) := by
      intro rest
      induction rest with
      | nil => exact fun _ => follows_pure []
      | cons entry rest ihrest =>
        obtain ⟨key, value⟩ := entry
        intro hmem
        unfold resolveEntries
        exact (ih (key, value) (hmem _ List.mem_cons_self) (childPath path key)).bind fun value' =>
          (ihrest fun e he => hmem e (List.mem_cons_of_mem _ he)).map ((key, value') :: ·)
    unfold resolveValue
    by_cases himport : IsImport entries
    · rw [if_pos himport, importReferences, if_pos himport]
      cases importTarget entries with
      | none => exact follows_raise _ _ _
      | some target => exact follows_importObject ⟨path, target⟩ himport
    · rw [if_neg himport, importReferences, if_neg himport]
      have hfill : fill (.dict entries) = fun objects =>
          (.dict (fillEntries entries objects).1, (fillEntries entries objects).2) := by
        funext objects
        unfold fill
        rw [if_neg himport]
      rw [hfill]
      exact (hentries entries fun _ he => he).map DataTree.dict

/-- Resolving a value imports the modules of a first part of its listed references, in their order.  If
it returns, it has imported them all, and the result is the value with each reference replaced by the
object that was imported for it. -/
theorem resolveValue_run (value : ConfigTree O) (path : String) (h : Handler (Op O) Op.Ret Empty)
    (w : World (Op O) Op.Ret Empty Unit) :
    ∃ t done rest, ((resolveValue value).run h w).2.trace = w.trace ++ t ∧
      importReferences path value = done ++ rest ∧ List.Forall₂ ModuleOf done (importsOf t) ∧
      ∀ v, ((resolveValue value).run h w).1 = .returned v →
        rest = [] ∧ fill value (objectsOf t) = (v, []) := by
  obtain ⟨t, done, rest, ht, hrefs, hdone, hreturned⟩ := follows_resolveValue path value h w
  refine ⟨t, done, rest, ht, hrefs, hdone, fun v hv => ?_⟩
  obtain ⟨hrest, hfill⟩ := hreturned v hv
  exact ⟨hrest, by simpa using hfill []⟩

/-- The references are listed in the order in which their objects are used. -/
example : fill (.dict [("map", .dict [("import", .leaf (.str "rows:clean"))]), ("size", .leaf .none)])
    [.leaf (.other 3)] = (.dict [("map", .leaf (.other 3)), ("size", .leaf .none)], []) := rfl

end AgoraEtl.Config.Components
