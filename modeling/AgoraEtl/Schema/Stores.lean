import AgoraEtl.Data.Joined
import AgoraEtl.Data.LastWrite
import AgoraEtl.Schema.Store
import AgoraEtl.State.Backend

/-!
# Schema stores

Both stores join the identifiers of a pipeline and a table with a colon to one key.  What they load is
what was saved last under the pair of identifiers, unless a pair that is joined to the same text was
saved later (`stores_load_iff`); if no pipeline has a colon in its identifier there is no such pair.
-/

namespace AgoraEtl

/-- A dictionary finds what was set last. -/
def OrderedDict.keyValueMap (κ ν : Type) [DecidableEq κ] : KeyValueMap (OrderedDict κ ν) κ ν where
  empty := .empty
  get := OrderedDict.get?
  set := OrderedDict.set
  get_empty := OrderedDict.get?_empty
  get_set := OrderedDict.get?_set

namespace Schemas

/-- The identifiers of a pipeline and a table, and a schema that is saved under them. -/
abbrev Save : Type := (Text × Text) × Schema

/-! ### The stores -/

/-- `BackendSchemaStore`. -/
structure BackendSchemaStore (B H : Type) where
  backend : KeyValueMap B Text (StoredValue H)
  contract : SchemaContract

namespace BackendSchemaStore

variable {B H : Type}

/-- `_make_key`. -/
def makeKey (pipelineId table : Text) : Text :=
  "schema:".toList ++ (pipelineId ++ ([':'] ++ table))

/-- `save`. -/
def save (self : BackendSchemaStore B H) (digest : SchemaContent → H) (b : B)
    (pipelineId table : Text) (schema : Schema) : B :=
  self.backend.set b (makeKey pipelineId table) (.dict (schema.toDict digest))

/-- `load`. -/
def load [DecidableEq H] (self : BackendSchemaStore B H) (digest : SchemaContent → H) (b : B)
    (pipelineId table : Text) : Except (LoadError H) (Option Schema) :=
  Schemas.load digest self.contract (self.backend.get b (makeKey pipelineId table))

/-- The backend after the saves. -/
def saveAll (self : BackendSchemaStore B H) (digest : SchemaContent → H) (saves : List Save) : B :=
  saves.foldl (fun b save => self.save digest b save.1.1 save.1.2 save.2) self.backend.empty

end BackendSchemaStore

/-- `InMemorySchemaStore`. -/
structure InMemorySchemaStore where
  schemas : OrderedDict Text Schema := .empty

namespace InMemorySchemaStore

/-- `f"{pipeline_id}:{table}"`. -/
def key (pipelineId table : Text) : Text := pipelineId ++ ([':'] ++ table)

/-- `save`. -/
def save (self : InMemorySchemaStore) (pipelineId table : Text) (schema : Schema) :
    InMemorySchemaStore :=
  ⟨self.schemas.set (key pipelineId table) schema⟩

/-- `load`. -/
def load (self : InMemorySchemaStore) (pipelineId table : Text) : Option Schema :=
  self.schemas.get? (key pipelineId table)

/-- The store after the saves. -/
def saveAll (saves : List Save) : InMemorySchemaStore :=
  saves.foldl (fun self save => self.save save.1.1 save.1.2 save.2) {}

end InMemorySchemaStore

/-! ### Pairs of one key -/

/-- A part of the table of the first pair, from its beginning up to a colon, moves over to the pipeline
of the second. -/
def Straddles (pair pair' : Text × Text) : Prop :=
  ∃ middle, pair'.1 = pair.1 ++ ([':'] ++ middle) ∧ pair.2 = middle ++ ([':'] ++ pair'.2)

/-- Two pairs that are not the same are joined to the same text. -/
def Collides (pair pair' : Text × Text) : Prop := Straddles pair pair' ∨ Straddles pair' pair

theorem key_eq_iff (pair pair' : Text × Text) :
    InMemorySchemaStore.key pair.1 pair.2 = InMemorySchemaStore.key pair'.1 pair'.2 ↔
      pair = pair' ∨ Collides pair pair' := by
  unfold InMemorySchemaStore.key Collides Straddles
  rw [Joined.eq_iff, Joined.straddles_singleton_iff, Joined.straddles_singleton_iff]

theorem makeKey_eq_iff (pair pair' : Text × Text) :
    BackendSchemaStore.makeKey pair.1 pair.2 = BackendSchemaStore.makeKey pair'.1 pair'.2 ↔
      pair = pair' ∨ Collides pair pair' := by
  rw [← key_eq_iff]
  exact List.append_cancel_left_eq _ _ _ |>.to_iff

theorem Collides.ne {pair pair' : Text × Text} (h : Collides pair pair') : pair ≠ pair' := by
  rintro rfl
  have hself : Straddles pair pair := h.elim id id
  exact (Joined.straddles_singleton_iff.mpr hself).ne rfl

/-- Pairs without a colon in the first identifier have keys of their own. -/
theorem not_collides_of_not_mem {pair pair' : Text × Text} (h : ':' ∉ pair.1) (h' : ':' ∉ pair'.1) :
    ¬ Collides pair pair' := by
  rintro (⟨middle, hfirst, -⟩ | ⟨middle, hfirst, -⟩)
  · exact h' (by simp [hfirst])
  · exact h (by simp [hfirst])

/-! ### What is loaded -/

/-- The schema that was saved last under a pair. -/
def lastSaved (saves : List Save) (pair : Text × Text) : Option Schema :=
  lastWrite (fun other => other = pair) saves

/-- If the last save under the key of a pair is one of another pair, it saves the schema that was saved
last under the pair itself. -/
def KeepsLast (saves : List Save) (pair : Text × Text) : Prop :=
  ∀ front save back, saves = front ++ save :: back → Collides pair save.1 →
    (∀ later ∈ back, later.1 ≠ pair ∧ ¬ Collides pair later.1) →
      lastSaved front pair = some save.2

section Loads

variable {saves : List Save} {pair : Text × Text}

theorem lastWrite_eq_lastSaved_iff {p : Text × Text → Prop} [DecidablePred p]
    (hp : ∀ other, p other ↔ pair = other ∨ Collides pair other) :
    lastWrite p saves = lastSaved saves pair ↔ KeepsLast saves pair := by
  unfold lastSaved KeepsLast
  rw [lastWrite_eq_iff fun other hsame => (hp other).mpr (.inl hsame.symm)]
  refine forall₄_congr fun front save back _ => ?_
  have hback : (∀ later ∈ back, ¬ p later.1) ↔
      ∀ later ∈ back, later.1 ≠ pair ∧ ¬ Collides pair later.1 :=
    forall₂_congr fun later _ => by rw [hp, not_or, ne_comm]
  rw [hback]
  constructor
  · intro h hcollides
    exact h ((hp save.1).mpr (.inr hcollides)) hcollides.ne.symm
  · intro h hmem hne
    exact h (((hp save.1).mp hmem).resolve_left fun hsame => hne hsame.symm)

variable {B H : Type} [DecidableEq H] (digest : SchemaContent → H) (store : BackendSchemaStore B H)

/-- What is loaded is what was saved last under the key, read back as it was. -/
theorem BackendSchemaStore.load_saveAll (pipelineId table : Text) :
    store.load digest (store.saveAll digest saves) pipelineId table =
      .ok (lastWrite (fun other : Text × Text =>
        makeKey pipelineId table = makeKey other.1 other.2) saves) := by
  have hget : store.backend.get (store.saveAll digest saves) (makeKey pipelineId table) = _ :=
    store.backend.get_writeAll (fun pair : Text × Text => makeKey pair.1 pair.2)
      (fun schema : Schema => .dict (schema.toDict digest)) saves (pipelineId, table)
  unfold BackendSchemaStore.load
  rw [hget]
  cases lastWrite (fun other : Text × Text =>
      makeKey pipelineId table = makeKey other.1 other.2) saves with
  | none => rfl
  | some schema =>
    rw [Option.map_some, Schemas.load, Schema.fromDict_toDict]
    rfl

/-- What is found is what was saved last under the key. -/
theorem InMemorySchemaStore.load_saveAll (pipelineId table : Text) :
    (InMemorySchemaStore.saveAll saves).load pipelineId table =
      lastWrite (fun other : Text × Text => key pipelineId table = key other.1 other.2) saves := by
  have hsaveAll : (InMemorySchemaStore.saveAll saves).schemas =
      (OrderedDict.keyValueMap Text Schema).writeAll
        (fun pair : Text × Text => key pair.1 pair.2) id saves := by
    induction saves using List.reverseRecOn with
    | nil => rfl
    | append_singleton saves save ih =>
      unfold KeyValueMap.writeAll InMemorySchemaStore.saveAll at ih ⊢
      rw [List.foldl_append, List.foldl_append, ← ih]
      rfl
  have hget := (OrderedDict.keyValueMap Text Schema).get_writeAll
    (fun pair : Text × Text => key pair.1 pair.2) id saves (pipelineId, table)
  rw [Option.map_id, ← hsaveAll] at hget
  exact hget

/-- The stores agree on every run, as they have the same pairs under one key. -/
theorem stores_agree (saves : List Save) (pipelineId table : Text) :
    store.load digest (store.saveAll digest saves) pipelineId table =
      .ok ((InMemorySchemaStore.saveAll saves).load pipelineId table) := by
  rw [BackendSchemaStore.load_saveAll, InMemorySchemaStore.load_saveAll]
  exact congrArg Except.ok (lastWrite_congr (fun other =>
    (makeKey_eq_iff (pipelineId, table) other).trans
      (key_eq_iff (pipelineId, table) other).symm) saves)

/-- The stores agree, and they load what was saved last under a pair exactly if that is what was saved
last under its key. -/
theorem stores_load_iff (saves : List Save) (pipelineId table : Text) :
    store.load digest (store.saveAll digest saves) pipelineId table =
        .ok ((InMemorySchemaStore.saveAll saves).load pipelineId table) ∧
      ((store.load digest (store.saveAll digest saves) pipelineId table =
          .ok (lastSaved saves (pipelineId, table)) ∧
        (InMemorySchemaStore.saveAll saves).load pipelineId table =
          lastSaved saves (pipelineId, table)) ↔
        KeepsLast saves (pipelineId, table)) := by
  refine ⟨stores_agree digest store saves pipelineId table, ?_⟩
  rw [BackendSchemaStore.load_saveAll, InMemorySchemaStore.load_saveAll, Except.ok.injEq,
    lastWrite_eq_lastSaved_iff fun other => makeKey_eq_iff (pipelineId, table) other,
    lastWrite_eq_lastSaved_iff fun other => key_eq_iff (pipelineId, table) other, and_self]

/-- Without colons in the identifiers of the pipelines, the last schema of a pair is always kept. -/
theorem keepsLast_of_not_mem (hpair : ':' ∉ pair.1) (hsaves : ∀ save ∈ saves, ':' ∉ save.1.1) :
    KeepsLast saves pair := by
  rintro front save back rfl hcollides -
  exact absurd hcollides (not_collides_of_not_mem hpair (hsaves save (by simp)))

end Loads

/-! ### Two pairs of one key -/

/-- A backend that is a dictionary; the digest of a content is the content. -/
def dictStore : BackendSchemaStore (OrderedDict Text (StoredValue SchemaContent)) SchemaContent :=
  ⟨OrderedDict.keyValueMap _ _, .freeze⟩

def ordersSchema : Schema := ⟨"orders", .ofEntries [("id", ⟨"id", .integer, false, 1⟩)], 1⟩

def itemsSchema : Schema := ⟨"items", .ofEntries [("sku", ⟨"sku", .string, false, 1⟩)], 1⟩

/-- The pipeline `eu:sales` saves a schema of `orders`, and the pipeline `eu` one of `sales:orders`. -/
def oneKey : List Save :=
  [(("eu:sales".toList, "orders".toList), ordersSchema),
    (("eu".toList, "sales:orders".toList), itemsSchema)]

theorem not_stores_load :
    dictStore.load id (dictStore.saveAll id oneKey) "eu:sales".toList "orders".toList =
        .ok (some itemsSchema) ∧
      (InMemorySchemaStore.saveAll oneKey).load "eu:sales".toList "orders".toList =
        some itemsSchema ∧
      lastSaved oneKey ("eu:sales".toList, "orders".toList) = some ordersSchema ∧
      itemsSchema ≠ ordersSchema := by
  refine ⟨rfl, ?_, ?_, ?_⟩ <;> decide +kernel

end Schemas

end AgoraEtl
