import AgoraEtl.Data.OrderedDict

/-!
# The container

`AgoraContainer` keeps singletons and factories under keys.  What a singleton factory makes is kept; the
others are called again for every lookup.  `startup_all` makes the singletons that are not there yet and
starts up what has a lifecycle, in the order in which the keys were registered first; `shutdown_all` goes
the other way.

However the container was used before, a `shutdown_all` shuts down what the `startup_all` before it has
started up, in reverse order, as long as nothing is registered in between, and that is all that the
container holds and has a lifecycle (`shutdownAll_reverses`).  A singleton is made once: what `resolve`
has returned it returns again, even if another factory is registered (`resolve_again`).

Factories and hooks may return or raise differently at every call.  They do not use the container.
-/

namespace AgoraEtl.Container

/-- `_Lifetime`. -/
inductive Lifetime where
  | singleton
  | transient
  deriving DecidableEq

variable {F K I E : Type}

/-- A call of the container into registered code. -/
inductive Call (F K I : Type) where
  | factory (factory : F) (kwargs : K)
  | startup (component : I)
  | shutdown (component : I)
  deriving DecidableEq

/-- The registered code: how each of its calls ends, by the number of calls before it. -/
structure Code (F K I E : Type) where
  noKwargs : K
  make : ℕ → F → K → Except E I
  /-- The instance is not `None` and satisfies `Lifecycle`. -/
  isLifecycle : I → Bool
  startup : ℕ → I → Option E
  shutdown : ℕ → I → Option E
  /-- `isinstance(exc, Exception)`. -/
  isException : E → Bool

/-- Lightweight async-aware DI container, with the calls it has made. -/
structure AgoraContainer (F K I : Type) where
  name : String
  singletons : OrderedDict String I
  factories : OrderedDict String (F × Lifetime)
  registrationOrder : List String
  calls : List (Call F K I)

/-- What `resolve` raises. -/
inductive ResolveError (E : Type) where
  | keyError (name key : String) (available : List String)
  | raised (error : E)

namespace AgoraContainer

def create (name : String) : AgoraContainer F K I := ⟨name, .empty, .empty, [], []⟩

variable (code : Code F K I E) (c : AgoraContainer F K I)

/-- The container after one more call. -/
def called (call : Call F K I) : AgoraContainer F K I := { c with calls := c.calls ++ [call] }

/-- `self._registration_order` with the key. -/
def orderWith (key : String) : List String :=
  if key ∈ c.registrationOrder then c.registrationOrder else c.registrationOrder ++ [key]

def registerSingleton (key : String) (component : I) : AgoraContainer F K I :=
  { c with singletons := c.singletons.set key component, registrationOrder := c.orderWith key }

def registerFactory (key : String) (factory : F) (singleton : Bool) : AgoraContainer F K I :=
  { c with
    factories := c.factories.set key (factory, if singleton then .singleton else .transient)
    registrationOrder := c.orderWith key }

/-- `self._singletons[key] = factory(**kwargs)`, or the call alone. -/
def callFactory (key : String) (factory : F) (lifetime : Lifetime) (kwargs : K) :
    Except E I × AgoraContainer F K I :=
  match code.make c.calls.length factory kwargs with
  | .error error => (.error error, c.called (.factory factory kwargs))
  | .ok component =>
    match lifetime with
    | .singleton => (.ok component,
        { c.called (.factory factory kwargs) with singletons := c.singletons.set key component })
    | .transient => (.ok component, c.called (.factory factory kwargs))

def resolve (key : String) (kwargs : K) : Except (ResolveError E) I × AgoraContainer F K I :=
  match c.singletons.get? key with
  | some component => (.ok component, c)
  | none =>
    match c.factories.get? key with
    | none => (.error (.keyError c.name key c.registrationOrder), c)
    | some (factory, lifetime) =>
      match c.callFactory code key factory lifetime kwargs with
      | (.error error, c') => (.error (.raised error), c')
      | (.ok component, c') => (.ok component, c')

/-- The first loop of `startup_registered_singletons`, over the keys that are left. -/
def makeSingletons (c : AgoraContainer F K I) : List String → Option E × AgoraContainer F K I
  | [] => (none, c)
  | key :: keys =>
    match c.factories.get? key, c.singletons.get? key with
    | some (factory, .singleton), none =>
      match c.callFactory code key factory .singleton code.noKwargs with
      | (.error error, c') => (some error, c')
      | (.ok _, c') => makeSingletons c' keys
    | _, _ => makeSingletons c keys

/-- The second loop of `startup_registered_singletons`, over the keys that are left. -/
def startUp (c : AgoraContainer F K I) : List String → Option E × AgoraContainer F K I
  | [] => (none, c)
  | key :: keys =>
    match (c.singletons.get? key).filter code.isLifecycle with
    | none => startUp c keys
    | some component =>
      match code.startup c.calls.length component with
      | some error => (some error, c.called (.startup component))
      | none => startUp (c.called (.startup component)) keys

def startupAll : Option E × AgoraContainer F K I :=
  match c.makeSingletons code c.registrationOrder with
  | (some error, c') => (some error, c')
  | (none, c') => c'.startUp code c'.registrationOrder

/-- The loop of `shutdown_registered_singletons`, over the keys that are left. -/
def shutDown (c : AgoraContainer F K I) : List String → Option E × AgoraContainer F K I
  | [] => (none, c)
  | key :: keys =>
    match (c.singletons.get? key).filter code.isLifecycle with
    | none => shutDown c keys
    | some component =>
      match code.shutdown c.calls.length component with
      | none => shutDown (c.called (.shutdown component)) keys
      | some error =>
        if code.isException error then shutDown (c.called (.shutdown component)) keys
        else (some error, c.called (.shutdown component))

def shutdownAll : Option E × AgoraContainer F K I := c.shutDown code c.registrationOrder.reverse

end AgoraContainer

/-- An operation of the container. -/
inductive Op (F K I : Type) where
  | registerSingleton (key : String) (component : I)
  | registerFactory (key : String) (factory : F) (singleton : Bool)
  | resolve (key : String) (kwargs : K)
  | startupAll
  | shutdownAll

namespace AgoraContainer

variable (code : Code F K I E)

def step (c : AgoraContainer F K I) : Op F K I → AgoraContainer F K I
  | .registerSingleton key component => c.registerSingleton key component
  | .registerFactory key factory singleton => c.registerFactory key factory singleton
  | .resolve key kwargs => (c.resolve code key kwargs).2
  | .startupAll => (c.startupAll code).2
  | .shutdownAll => (c.shutdownAll code).2

def run (c : AgoraContainer F K I) (ops : List (Op F K I)) : AgoraContainer F K I :=
  ops.foldl (step code) c

/-! ## What is registered -/

/-- Every key with a singleton or a factory is registered, once. -/
structure Registered (c : AgoraContainer F K I) : Prop where
  nodup : c.registrationOrder.Nodup
  singleton : ∀ key component, c.singletons.get? key = some component → key ∈ c.registrationOrder
  factory : ∀ key entry, c.factories.get? key = some entry → key ∈ c.registrationOrder

/-- The step from one container to another registers nothing: singletons stay where they are, and others
come under keys of singleton factories only. -/
structure Fills (c c' : AgoraContainer F K I) : Prop where
  order : c'.registrationOrder = c.registrationOrder
  factories : c'.factories = c.factories
  kept : ∀ key component, c.singletons.get? key = some component →
    c'.singletons.get? key = some component
  made : ∀ key component, c'.singletons.get? key = some component →
    c.singletons.get? key = some component ∨ ∃ factory, c.factories.get? key = some (factory, .singleton)

variable {code} {c c' c'' : AgoraContainer F K I}

/-- Doing nothing fills nothing. -/
theorem Fills.refl (c : AgoraContainer F K I) : Fills c c :=
  ⟨rfl, rfl, fun _ _ h => h, fun _ _ h => .inl h⟩

/-- Fillings compose. -/
theorem Fills.trans (h : Fills c c') (h' : Fills c' c'') : Fills c c'' where
  order := h'.order.trans h.order
  factories := h'.factories.trans h.factories
  kept := fun key component hkey => h'.kept key component (h.kept key component hkey)
  made := by
    intro key component hkey
    rcases h'.made key component hkey with hold | ⟨factory, hfactory⟩
    · exact h.made key component hold
    · exact .inr ⟨factory, h.factories ▸ hfactory⟩

/-- A call fills no singleton. -/
theorem Fills.called (c : AgoraContainer F K I) (call : Call F K I) : Fills c (c.called call) :=
  ⟨rfl, rfl, fun _ _ h => h, fun _ _ h => .inl h⟩

/-- Filling singletons registers nothing. -/
theorem Registered.fills (h : Registered c) (hfills : Fills c c') : Registered c' where
  nodup := hfills.order ▸ h.nodup
  singleton := by
    intro key component hkey
    rw [hfills.order]
    rcases hfills.made key component hkey with hold | ⟨factory, hfactory⟩
    · exact h.singleton key component hold
    · exact h.factory key _ hfactory
  factory := by
    intro key entry hkey
    rw [hfills.order]
    exact h.factory key entry (hfills.factories ▸ hkey)

variable (code) in

/-- Calling the factory of a key without instance fills at most that key. -/
theorem fills_callFactory {key : String} {factory : F} {lifetime : Lifetime} (kwargs : K)
    (hnone : c.singletons.get? key = none) (hfactory : c.factories.get? key = some (factory, lifetime)) :
    Fills c (c.callFactory code key factory lifetime kwargs).2 := by
  unfold callFactory
  cases code.make c.calls.length factory kwargs with
  | error error => exact Fills.called c _
  | ok component =>
    cases lifetime with
    | transient => exact Fills.called c _
    | singleton =>
      refine ⟨rfl, rfl, fun other held hheld => ?_, fun other held hheld => ?_⟩
      · have hne : other ≠ key := fun heq => by
          rw [heq, hnone] at hheld
          cases hheld
        exact (OrderedDict.get?_set_of_ne _ _ hne).trans hheld
      · by_cases heq : other = key
        · exact .inr ⟨factory, heq ▸ hfactory⟩
        · exact .inl ((OrderedDict.get?_set_of_ne _ _ heq).symm.trans hheld)

variable (code) in

/-- `resolve` fills at most singletons without instance. -/
theorem fills_resolve (key : String) (kwargs : K) : Fills c (c.resolve code key kwargs).2 := by
  unfold resolve
  cases hkey : c.singletons.get? key with
  | some component => exact Fills.refl c
  | none =>
    cases hfactory : c.factories.get? key with
    | none => exact Fills.refl c
    | some entry =>
      obtain ⟨factory, lifetime⟩ := entry
      have hfills := fills_callFactory code kwargs hkey hfactory
      dsimp only
      split
      · next heq =>
        rw [heq] at hfills
        exact hfills
      · next heq =>
        rw [heq] at hfills
        exact hfills

variable (code) in

/-- So does making the singletons of keys. -/
theorem fills_makeSingletons (c : AgoraContainer F K I) (keys : List String) :
    Fills c (c.makeSingletons code keys).2 := by
  induction keys generalizing c with
  | nil => exact Fills.refl c
  | cons key keys ih =>
    unfold makeSingletons
    split
    · next factory hfactory hnone =>
      have hfills := fills_callFactory code code.noKwargs hnone hfactory
      split
      · next heq =>
        rw [heq] at hfills
        exact hfills
      · next heq =>
        rw [heq] at hfills
        exact hfills.trans (ih _)
    · exact ih c

variable (code) in

/-- So does starting them up. -/
theorem fills_startUp (c : AgoraContainer F K I) (keys : List String) :
    Fills c (c.startUp code keys).2 := by
  induction keys generalizing c with
  | nil => exact Fills.refl c
  | cons key keys ih =>
    unfold startUp
    split
    · exact ih c
    · next component _ =>
      split
      · exact Fills.called c _
      · exact (Fills.called c (.startup component)).trans (ih _)

variable (code) in

/-- So does shutting them down. -/
theorem fills_shutDown (c : AgoraContainer F K I) (keys : List String) :
    Fills c (c.shutDown code keys).2 := by
  induction keys generalizing c with
  | nil => exact Fills.refl c
  | cons key keys ih =>
    unfold shutDown
    split
    · exact ih c
    · next component _ =>
      split
      · exact (Fills.called c (.shutdown component)).trans (ih _)
      · split
        · exact (Fills.called c (.shutdown component)).trans (ih _)
        · exact Fills.called c _

variable (code) in

/-- So does `startup_all`. -/
theorem fills_startupAll (c : AgoraContainer F K I) : Fills c (c.startupAll code).2 := by
  have hfills := fills_makeSingletons code c c.registrationOrder
  unfold startupAll
  split
  · next heq =>
    rw [heq] at hfills
    exact hfills
  · next heq =>
    rw [heq] at hfills
    exact hfills.trans (fills_startUp code _ _)

end AgoraContainer

/-- The operation registers something. -/
def Op.Registers : Op F K I → Prop
  | .registerSingleton _ _ => True
  | .registerFactory _ _ _ => True
  | _ => False

namespace AgoraContainer

variable {code : Code F K I E} {c c' : AgoraContainer F K I}

/-- An operation that registers nothing fills at most singletons without instance. -/
theorem fills_step {op : Op F K I} (h : ¬ op.Registers) : Fills c (c.step code op) := by
  cases op with
  | registerSingleton key component => exact absurd trivial h
  | registerFactory key factory singleton => exact absurd trivial h
  | resolve key kwargs => exact fills_resolve code key kwargs
  | startupAll => exact fills_startupAll code c
  | shutdownAll => exact fills_shutDown code c _

/-- So does a sequence of them. -/
theorem fills_run {ops : List (Op F K I)} (h : ∀ op ∈ ops, ¬ op.Registers) :
    Fills c (c.run code ops) := by
  induction ops generalizing c with
  | nil => exact Fills.refl c
  | cons op ops ih =>
    rw [List.forall_mem_cons] at h
    exact (fills_step h.1).trans (ih h.2)

/-- The order with a key has the key and what it had before. -/
theorem mem_orderWith {key key' : String} :
    key' ∈ c.orderWith key ↔ key' = key ∨ key' ∈ c.registrationOrder := by
  unfold orderWith
  split
  · next hmem => exact ⟨.inr, fun h => h.elim (fun heq => heq ▸ hmem) id⟩
  · rw [List.mem_append, List.mem_singleton, or_comm]

/-- A key enters the order once. -/
theorem nodup_orderWith (h : c.registrationOrder.Nodup) (key : String) : (c.orderWith key).Nodup := by
  unfold orderWith
  split
  · exact h
  · next hmem => exact List.nodup_append.mpr ⟨h, List.nodup_singleton key, by
      intro other hother last hlast heq
      rw [List.mem_singleton] at hlast
      exact hmem (hlast ▸ heq ▸ hother)⟩

/-- A new container is well formed. -/
theorem registered_create (name : String) : Registered (create name : AgoraContainer F K I) where
  nodup := List.nodup_nil
  singleton := by
    intro key component hkey
    cases hkey
  factory := by
    intro key entry hkey
    cases hkey

/-- The step lemma. -/
theorem Registered.step (h : Registered c) (op : Op F K I) : Registered (c.step code op) := by
  by_cases hop : op.Registers
  · cases op with
    | registerSingleton key component =>
      refine ⟨nodup_orderWith h.nodup key, fun other held hheld => mem_orderWith.mpr ?_,
        fun other entry hentry => mem_orderWith.mpr (.inr (h.factory other entry hentry))⟩
      by_cases heq : other = key
      · exact .inl heq
      · exact .inr (h.singleton other held
          ((OrderedDict.get?_set_of_ne _ _ heq).symm.trans hheld))
    | registerFactory key factory singleton =>
      refine ⟨nodup_orderWith h.nodup key,
        fun other held hheld => mem_orderWith.mpr (.inr (h.singleton other held hheld)),
        fun other entry hentry => mem_orderWith.mpr ?_⟩
      by_cases heq : other = key
      · exact .inl heq
      · exact .inr (h.factory other entry
          ((OrderedDict.get?_set_of_ne _ _ heq).symm.trans hentry))
    | resolve key kwargs => exact hop.elim
    | startupAll => exact hop.elim
    | shutdownAll => exact hop.elim
  · exact h.fills (fills_step hop)

/-- The run lemma. -/
theorem Registered.run (h : Registered c) (ops : List (Op F K I)) : Registered (c.run code ops) := by
  induction ops generalizing c with
  | nil => exact h
  | cons op ops ih => exact ih (h.step op)

/-! ## What is made, started up and shut down -/

/-- Every singleton factory has made its instance. -/
def Complete (c : AgoraContainer F K I) (keys : List String) : Prop :=
  ∀ key ∈ keys, ∀ factory, c.factories.get? key = some (factory, .singleton) →
    ∃ component, c.singletons.get? key = some component

/-- Singletons that have their instances keep them. -/
theorem Complete.fills {keys : List String} (h : Complete c keys) (hfills : Fills c c') :
    Complete c' keys := by
  intro key hkey factory hfactory
  obtain ⟨component, hcomponent⟩ := h key hkey factory (hfills.factories ▸ hfactory)
  exact ⟨component, hfills.kept key component hcomponent⟩

/-- A complete container holds the same singletons until something is registered. -/
theorem Fills.get?_singletons (hfills : Fills c c') (h : Registered c)
    (hcomplete : Complete c c.registrationOrder) (key : String) :
    c'.singletons.get? key = c.singletons.get? key := by
  cases hkey : c.singletons.get? key with
  | some component => exact hfills.kept key component hkey
  | none =>
    cases hkey' : c'.singletons.get? key with
    | none => rfl
    | some component =>
      rcases hfills.made key component hkey' with hold | ⟨factory, hfactory⟩
      · rw [hkey] at hold
        cases hold
      · obtain ⟨held, hheld⟩ := hcomplete key (h.factory key _ hfactory) factory hfactory
        rw [hkey] at hheld
        cases hheld

variable (code c) in
/-- What the container holds under the keys and has a lifecycle. -/
def held (keys : List String) : List I :=
  keys.filterMap fun key => (c.singletons.get? key).filter code.isLifecycle

/-- Where no startup raises, the components that are held are started in order. -/
theorem startUp_spec (keys : List String) (h : (c.startUp code keys).1 = none) :
    (c.startUp code keys).2.calls = c.calls ++ (c.held code keys).map Call.startup := by
  induction keys generalizing c with
  | nil => exact (List.append_nil _).symm
  | cons key keys ih =>
    unfold startUp at h ⊢
    unfold held
    rw [List.filterMap_cons]
    cases hheld : (c.singletons.get? key).filter code.isLifecycle with
    | none =>
      rw [hheld] at h
      exact ih h
    | some component =>
      rw [hheld] at h
      cases hstartup : code.startup c.calls.length component with
      | some error =>
        simp only [hstartup] at h
        cases h
      | none =>
        simp only [hstartup] at h ⊢
        rw [ih h]
        exact List.append_assoc _ _ _

/-- Where no shutdown raises, the components that are held are shut down in order. -/
theorem shutDown_spec (keys : List String) (h : (c.shutDown code keys).1 = none) :
    (c.shutDown code keys).2.calls = c.calls ++ (c.held code keys).map Call.shutdown := by
  induction keys generalizing c with
  | nil => exact (List.append_nil _).symm
  | cons key keys ih =>
    unfold shutDown at h ⊢
    unfold held
    rw [List.filterMap_cons]
    cases hheld : (c.singletons.get? key).filter code.isLifecycle with
    | none =>
      rw [hheld] at h
      exact ih h
    | some component =>
      rw [hheld] at h
      have hrest : ((c.called (.shutdown component)).shutDown code keys).1 = none →
          ((c.called (.shutdown component)).shutDown code keys).2.calls =
            c.calls ++ (component :: c.held code keys).map Call.shutdown :=
        fun hnone => (ih hnone).trans (List.append_assoc _ _ _)
      cases hshutdown : code.shutdown c.calls.length component with
      | none =>
        simp only [hshutdown] at h ⊢
        exact hrest h
      | some error =>
        simp only [hshutdown] at h ⊢
        by_cases hexception : code.isException error = true
        · rw [if_pos hexception] at h ⊢
          exact hrest h
        · rw [if_neg hexception] at h
          cases h

variable (code) in

/-- Calling a factory is one call. -/
theorem callFactory_calls (key : String) (factory : F) (lifetime : Lifetime) (kwargs : K) :
    (c.callFactory code key factory lifetime kwargs).2.calls = c.calls ++ [.factory factory kwargs] := by
  unfold callFactory
  cases code.make c.calls.length factory kwargs with
  | error error => rfl
  | ok component => cases lifetime <;> rfl

/-- What a singleton factory made is there. -/
theorem callFactory_singleton {key : String} {factory : F} {kwargs : K} {component : I}
    (h : c.callFactory code key factory .singleton kwargs = (.ok component, c')) :
    c'.singletons.get? key = some component := by
  unfold callFactory at h
  cases hmake : code.make c.calls.length factory kwargs with
  | error error =>
    rw [hmake] at h
    cases h
  | ok made =>
    rw [hmake] at h
    cases h
    exact OrderedDict.get?_set_self _ _ _

variable (c) in
/-- The factory of the key, if it is a singleton factory that has not made its instance. -/
def pendingFactory (key : String) : Option F :=
  match c.factories.get? key, c.singletons.get? key with
  | some (factory, .singleton), none => some factory
  | _, _ => none

/-- A factory that is called for one key leaves the other ones pending. -/
theorem pendingFactory_callFactory {key other : String} (hne : other ≠ key) {factory : F}
    {lifetime : Lifetime} {kwargs : K} {reply : Except E I}
    (h : c.callFactory code key factory lifetime kwargs = (reply, c')) :
    c'.pendingFactory other = c.pendingFactory other := by
  have hsame : c'.factories = c.factories ∧ c'.singletons.get? other = c.singletons.get? other := by
    unfold callFactory at h
    cases hmake : code.make c.calls.length factory kwargs with
    | error error =>
      rw [hmake] at h
      cases h
      exact ⟨rfl, rfl⟩
    | ok made =>
      rw [hmake] at h
      cases lifetime with
      | transient =>
        cases h
        exact ⟨rfl, rfl⟩
      | singleton =>
        cases h
        exact ⟨rfl, OrderedDict.get?_set_of_ne _ _ hne⟩
  unfold pendingFactory
  rw [hsame.1, hsame.2]

variable (code) in
/-- A first loop that raises nothing calls the pending factories, each once and in the order of the
keys. -/
theorem makeSingletons_calls {keys : List String} (hkeys : keys.Nodup)
    (h : (c.makeSingletons code keys).1 = none) :
    (c.makeSingletons code keys).2.calls =
      c.calls ++ (keys.filterMap c.pendingFactory).map fun factory => .factory factory code.noKwargs := by
  induction keys generalizing c with
  | nil => exact (List.append_nil _).symm
  | cons key keys ih =>
    obtain ⟨hnot, hkeys⟩ := List.nodup_cons.mp hkeys
    unfold makeSingletons at h ⊢
    rw [List.filterMap_cons]
    split at h
    · next factory hfactory hnone =>
      have hpending : c.pendingFactory key = some factory := by
        unfold pendingFactory
        rw [hfactory, hnone]
      have hcalls := callFactory_calls code (c := c) key factory .singleton code.noKwargs
      split at h
      · cases h
      · next c' heq =>
        rw [heq] at hcalls
        have hrest : keys.filterMap c'.pendingFactory = keys.filterMap c.pendingFactory :=
          List.filterMap_congr fun other hother =>
            pendingFactory_callFactory (ne_of_mem_of_not_mem hother hnot) heq
        rw [ih hkeys h, hcalls, hrest, hpending, List.append_assoc]
        rfl
    · next hskip =>
      have hpending : c.pendingFactory key = none := by
        unfold pendingFactory
        split
        · next factory hfactory hnone => exact absurd hnone (hskip factory hfactory)
        · rfl
      rw [hpending]
      exact ih hkeys h

variable (code) in
/-- If the first loop raises nothing, the instances of all singleton factories are there. -/
theorem complete_makeSingletons (keys : List String) (h : (c.makeSingletons code keys).1 = none) :
    Complete (c.makeSingletons code keys).2 keys := by
  induction keys generalizing c with
  | nil =>
    intro key hkey
    cases hkey
  | cons key keys ih =>
    intro other hother factory hfactory
    have hfactories := (fills_makeSingletons code c (key :: keys)).factories
    rw [hfactories] at hfactory
    unfold makeSingletons at h ⊢
    split at h
    · next made hmade hnone =>
      split at h
      · cases h
      · next component c' heq =>
        have hfills : Fills c c' := by
          have hcall := fills_callFactory code code.noKwargs hnone hmade
          rw [heq] at hcall
          exact hcall
        have hrest := fills_makeSingletons code c' keys
        rcases List.mem_cons.mp hother with rfl | hmem
        · exact ⟨component, hrest.kept other component (callFactory_singleton heq)⟩
        · refine ih h other hmem factory ?_
          rw [hrest.factories, hfills.factories]
          exact hfactory
    · next hskip =>
      have hrest := fills_makeSingletons code c keys
      rcases List.mem_cons.mp hother with rfl | hmem
      · cases hheld : c.singletons.get? other with
        | none => exact absurd hheld (hskip factory hfactory)
        | some component => exact ⟨component, hrest.kept other component hheld⟩
      · refine ih h other hmem factory ?_
        rw [hrest.factories]
        exact hfactory

/-- Starting components up changes no singleton. -/
theorem singletons_startUp (c : AgoraContainer F K I) (keys : List String) :
    (c.startUp code keys).2.singletons = c.singletons := by
  induction keys generalizing c with
  | nil => rfl
  | cons key keys ih =>
    unfold startUp
    split
    · exact ih c
    · split
      · rfl
      · exact ih _

/-- Which components are held depends on the singletons only. -/
theorem held_congr (h : ∀ key, c'.singletons.get? key = c.singletons.get? key) (keys : List String) :
    c'.held code keys = c.held code keys :=
  List.filterMap_congr fun key _ => by rw [h key]

/-- A `startup_all` that raises nothing leaves all singletons made, and has started up what is held. -/
theorem startupAll_spec (hkeys : c.registrationOrder.Nodup) (h : (c.startupAll code).1 = none) :
    Complete (c.startupAll code).2 c.registrationOrder ∧
      (c.startupAll code).2.calls =
        c.calls ++ ((c.registrationOrder.filterMap c.pendingFactory).map
          fun factory => .factory factory code.noKwargs) ++
          ((c.startupAll code).2.held code c.registrationOrder).map Call.startup := by
  have hmade := makeSingletons_calls code (c := c) hkeys
  have hcomplete := complete_makeSingletons code (c := c) c.registrationOrder
  have hfills := fills_makeSingletons code c c.registrationOrder
  unfold startupAll at h ⊢
  split at h
  · cases h
  · next c₁ heq =>
    rw [heq] at hmade hcomplete hfills
    dsimp only at hmade hcomplete hfills
    have hmade := hmade rfl
    have hstarted := startUp_spec _ h
    have hmore := fills_startUp code c₁ c₁.registrationOrder
    rw [hfills.order] at hstarted hmore h ⊢
    refine ⟨(hcomplete rfl).fills hmore, ?_⟩
    rw [hstarted, hmade]
    exact congrArg _ (congrArg _ (held_congr (fun key => by rw [singletons_startUp]) _).symm)

/-- A `shutdown_all` that raises nothing shuts down what is held, the other way. -/
theorem shutdownAll_spec (h : (c.shutdownAll code).1 = none) :
    (c.shutdownAll code).2.calls =
      c.calls ++ (c.held code c.registrationOrder).reverse.map Call.shutdown := by
  refine (shutDown_spec _ h).trans ?_
  unfold held
  rw [List.filterMap_reverse]

/-- However the container was used before: if a `startup_all` raises nothing, nothing is registered
afterwards and a `shutdown_all` raises nothing, then the first one calls the singleton factories of the
keys without an instance, each once, and starts up what the container holds at the end, key by key, and
the second one shuts that down in reverse order.  Every key with a singleton counts, once. -/
theorem shutdownAll_reverses (code : Code F K I E) (name : String) (ops : List (Op F K I))
    {ops' : List (Op F K I)} (hops' : ∀ op ∈ ops', ¬ op.Registers)
    (hstart : (((create name).run code ops).startupAll code).1 = none)
    (hstop : (((((create name).run code ops).startupAll code).2.run code ops').shutdownAll code).1 =
      none) :
    let before := (create name).run code ops
    let started := (before.startupAll code).2
    let used := started.run code ops'
    started.calls = before.calls ++ ((before.registrationOrder.filterMap before.pendingFactory).map
        fun factory => .factory factory code.noKwargs) ++
          (used.held code used.registrationOrder).map Call.startup ∧
      (used.shutdownAll code).2.calls =
        used.calls ++ (used.held code used.registrationOrder).reverse.map Call.shutdown ∧
      used.registrationOrder.Nodup ∧
      ∀ key component, used.singletons.get? key = some component → key ∈ used.registrationOrder := by
  intro before started used
  have hbefore : Registered before := (registered_create name).run ops
  have hfills : Fills before started := fills_startupAll code before
  have hstarted : Registered started := hbefore.fills hfills
  have hused : Fills started used := fills_run hops'
  have hend : Registered used := hstarted.fills hused
  obtain ⟨hcomplete, hcalls⟩ := startupAll_spec hbefore.nodup hstart
  have hsame : ∀ key, used.singletons.get? key = started.singletons.get? key :=
    hused.get?_singletons hstarted (hfills.order.symm ▸ hcomplete)
  have horder : used.registrationOrder = before.registrationOrder := hused.order.trans hfills.order
  refine ⟨?_, shutdownAll_spec hstop, hend.nodup, hend.singleton⟩
  rw [hcalls, horder, held_congr hsame]

/-- Factories that make their own name, where the second instance cannot be shut down. -/
def names : Code ℕ Unit ℕ Unit where
  noKwargs := ()
  make := fun _ factory _ => .ok factory
  isLifecycle := fun _ => true
  startup := fun _ _ => none
  shutdown := fun _ component => if component = 2 then some () else none
  isException := fun _ => true

/-- Only the singleton factory is called; a failure to shut down its instance does not keep the one before
it from being shut down. -/
theorem shutdownAll_reverses_names :
    let before := (create "c").run names [.registerSingleton "source" 1,
      .registerFactory "clock" 3 false, .registerFactory "sink" 2 true]
    let started := (before.startupAll names).2
    let used := started.run names [.resolve "sink" ()]
    started.calls = [.factory 2 (), .startup 1, .startup 2] ∧
      (used.shutdownAll names).2.calls = used.calls ++ [.shutdown 2, .shutdown 1] := by
  have hresolve : ∀ op ∈ [(.resolve "sink" () : Op ℕ Unit ℕ)], ¬ op.Registers := by
    rw [List.forall_mem_singleton]
    exact id
  obtain ⟨hstarted, hstopped, -⟩ := shutdownAll_reverses names "c" [.registerSingleton "source" 1,
    .registerFactory "clock" 3 false, .registerFactory "sink" 2 true] hresolve rfl rfl
  exact ⟨hstarted, hstopped⟩

end AgoraContainer

/-- The operation puts an instance under the key. -/
def Op.Replaces (key : String) : Op F K I → Prop
  | .registerSingleton other _ => other = key
  | _ => False

namespace AgoraContainer

variable {code : Code F K I E} {c c' : AgoraContainer F K I} {key : String} {component : I}

/-- A singleton stays under its key, also if a factory is registered there. -/
theorem get?_step {op : Op F K I} (h : ¬ op.Replaces key) (hkey : c.singletons.get? key = some component) :
    (c.step code op).singletons.get? key = some component := by
  cases op with
  | registerSingleton other instead => exact (OrderedDict.get?_set_of_ne _ _ (Ne.symm h)).trans hkey
  | registerFactory other factory singleton => exact hkey
  | resolve other kwargs => exact (fills_resolve code other kwargs).kept key component hkey
  | startupAll => exact (fills_startupAll code c).kept key component hkey
  | shutdownAll => exact (fills_shutDown code c _).kept key component hkey

/-- A singleton that is not replaced stays the same. -/
theorem get?_run {ops : List (Op F K I)} (h : ∀ op ∈ ops, ¬ op.Replaces key)
    (hkey : c.singletons.get? key = some component) :
    (c.run code ops).singletons.get? key = some component := by
  induction ops generalizing c with
  | nil => exact hkey
  | cons op ops ih =>
    rw [List.forall_mem_cons] at h
    exact ih h.2 (get?_step h.1 hkey)

/-- `resolve` returns the instance of a singleton that has one, and changes nothing. -/
theorem resolve_of_get? (h : c.singletons.get? key = some component) (kwargs : K) :
    c.resolve code key kwargs = (.ok component, c) := by
  unfold resolve
  rw [h]

/-- What `resolve` returns is kept, unless a factory made it that is no singleton. -/
theorem get?_resolve {kwargs : K} (hresolve : (c.resolve code key kwargs).1 = .ok component)
    (hsingleton : c.singletons.get? key = none →
      ∀ factory, c.factories.get? key ≠ some (factory, .transient)) :
    (c.resolve code key kwargs).2.singletons.get? key = some component := by
  cases hkey : c.singletons.get? key with
  | some held =>
    rw [resolve_of_get? hkey] at hresolve ⊢
    cases hresolve
    exact hkey
  | none =>
    unfold resolve at hresolve ⊢
    rw [hkey] at hresolve ⊢
    cases hfactory : c.factories.get? key with
    | none =>
      simp only [hfactory] at hresolve
      cases hresolve
    | some entry =>
      obtain ⟨factory, lifetime⟩ := entry
      simp only [hfactory] at hresolve ⊢
      cases lifetime with
      | transient => exact absurd hfactory (hsingleton hkey factory)
      | singleton =>
        cases hcall : c.callFactory code key factory .singleton kwargs with
        | mk reply c' =>
          rw [hcall] at hresolve
          cases reply with
          | error error => cases hresolve
          | ok made =>
            cases hresolve
            exact callFactory_singleton hcall

/-- Once `resolve` has returned a singleton, it returns the same instance and calls nothing, whatever is
done with the container, until an instance is registered under the key. -/
theorem resolve_again (code : Code F K I E) (c : AgoraContainer F K I) {key : String} {kwargs : K}
    {component : I} {ops : List (Op F K I)}
    (hresolve : (c.resolve code key kwargs).1 = .ok component)
    (hsingleton : c.singletons.get? key = none →
      ∀ factory, c.factories.get? key ≠ some (factory, .transient))
    (hops : ∀ op ∈ ops, ¬ op.Replaces key) (kwargs' : K) :
    let used := (c.resolve code key kwargs).2.run code ops
    used.resolve code key kwargs' = (.ok component, used) :=
  resolve_of_get? (get?_run hops (get?_resolve hresolve hsingleton)) kwargs'

/-- A factory that is registered later does not take the place of the instance. -/
theorem resolve_again_names :
    let c : AgoraContainer ℕ Unit ℕ := (create "c").registerFactory "sink" 2 true
    let used := (c.resolve names "sink" ()).2.run names [.registerFactory "sink" 3 true, .startupAll]
    used.resolve names "sink" () = (.ok 2, used) := by
  intro c used
  have hsingleton : ∀ factory, c.factories.get? "sink" ≠ some (factory, .transient) := by
    intro factory hfactory
    cases hfactory
  have hops : ∀ op ∈ [.registerFactory "sink" 3 true, (.startupAll : Op ℕ Unit ℕ)],
      ¬ op.Replaces "sink" := by
    rw [List.forall_mem_cons, List.forall_mem_singleton]
    exact ⟨id, id⟩
  exact resolve_again names c rfl (fun _ => hsingleton) hops ()

end AgoraContainer

end AgoraEtl.Container
