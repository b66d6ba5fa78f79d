import AgoraEtl.Dlq.PayloadPolicy

/-!
# What redaction hides

Two payloads are alike if they differ only in what redaction replaces.  The relation follows the
traversal: outside the lists under `headers` the values of sensitive fields may differ, in such a list
the values of header entries with a sensitive key.  Alike payloads are redacted to the same payload, and
a payload is alike to what it is redacted to.
-/

namespace AgoraEtl.DLQPolicy

variable {ω : Type}

/-- Where a payload stands: a value that is redacted with field names and a parent key, or an item of a
list under `headers`. -/
inductive Place where
  | value (fieldNames : Finset String) (parentKey : Option String)
  | header

section Alike

variable [DecidableEq ω] (py : Python ω) (headerNames : Finset String)
  (paired : List (Entry ω) → List (Entry ω) → Prop)

mutual

/-- Two payloads differ only in what is replaced.  Header entries that are not sensitive are also
`paired`. -/
inductive Alike : Place → Payload ω → Payload ω → Prop
  | same {place : Place} (p : Payload ω) : Alike place p p
  | list {fieldNames : Finset String} {parentKey : Option String} {xs ys : List (Payload ω)}
      (hparent : parentKey ≠ some "headers")
      (hitems : AlikeItems (.value fieldNames parentKey) xs ys) :
      Alike (.value fieldNames parentKey) (.list xs) (.list ys)
  | headers {fieldNames : Finset String} {xs ys : List (Payload ω)}
      (hitems : AlikeItems .header xs ys) :
      Alike (.value fieldNames (some "headers")) (.list xs) (.list ys)
  | dict {fieldNames : Finset String} {parentKey : Option String} {xs ys : List (Entry ω)}
      (hentries : AlikeEntries fieldNames (py.texts xs).entries (py.texts ys).entries) :
      Alike (.value fieldNames parentKey) (.dict xs) (.dict ys)
  | header {xs ys : List (Entry ω)} (hkey : py.headerKey xs ∉ headerNames)
      (hpaired : paired xs ys)
      (hentries : AlikeEntries ∅ (py.texts xs).entries (py.texts ys).entries) :
      Alike .header (.dict xs) (.dict ys)
  | sensitiveHeader {xs ys : List (Entry ω)} (hkey : py.headerKey xs ∈ headerNames)
      (hkey' : py.headerKey ys ∈ headerNames)
      (hvalue : ∀ value : Payload ω, OrderedDict.setEntry xs (.str "value") value =
        OrderedDict.setEntry ys (.str "value") value) :
      Alike .header (.dict xs) (.dict ys)

inductive AlikeItems : Place → List (Payload ω) → List (Payload ω) → Prop
  | nil {place : Place} : AlikeItems place [] []
  | cons {place : Place} {x y : Payload ω} {xs ys : List (Payload ω)} (hitem : Alike place x y)
      (hitems : AlikeItems place xs ys) : AlikeItems place (x :: xs) (y :: ys)

/-- The same keys in the same order, with values that differ only in what is replaced. -/
inductive AlikeEntries : Finset String → List (String × Payload ω) → List (String × Payload ω) → Prop
  | nil {fieldNames : Finset String} : AlikeEntries fieldNames [] []
  | field {fieldNames : Finset String} {key : String} {v w : Payload ω}
      {xs ys : List (String × Payload ω)} (hkey : py.normalizeSensitiveName key ∈ fieldNames)
      (hentries : AlikeEntries fieldNames xs ys) :
      AlikeEntries fieldNames ((key, v) :: xs) ((key, w) :: ys)
  | cons {fieldNames : Finset String} {key : String} {v w : Payload ω}
      {xs ys : List (String × Payload ω)}
      (hvalue : Alike (.value fieldNames (some (py.normalizeSensitiveName key))) v w)
      (hentries : AlikeEntries fieldNames xs ys) :
      AlikeEntries fieldNames ((key, v) :: xs) ((key, w) :: ys)

end

end Alike

/-! ### The result of redaction -/

section Redaction

variable [DecidableEq ω] (py : Python ω) (headerNames : Finset String) (redactedValue : String)

/-- What a payload becomes at its place. -/
def redactAt : Place → Payload ω → Payload ω
  | .value fieldNames parentKey =>
    redactValue py headerNames redactedValue fieldNames parentKey
  | .header => redactHeader py headerNames redactedValue

/-- What becomes of the value under a key that is a string. -/
def redactField (fieldNames : Finset String) (key : String) (value : Payload ω) : Payload ω :=
  redactEntry py headerNames redactedValue fieldNames (.str key, value)

/-- A sensitive field is replaced. -/
theorem redactField_of_mem {fieldNames : Finset String} {key : String}
    (h : py.normalizeSensitiveName key ∈ fieldNames) (value : Payload ω) :
    redactField py headerNames redactedValue fieldNames key value =
      .scalar (.str redactedValue) := by
  rw [redactField, redactEntry]
  exact if_pos h

/-- Any other one is redacted inside. -/
theorem redactField_of_not_mem {fieldNames : Finset String} {key : String}
    (h : py.normalizeSensitiveName key ∉ fieldNames) (value : Payload ω) :
    redactField py headerNames redactedValue fieldNames key value =
      redactAt py headerNames redactedValue
        (.value fieldNames (some (py.normalizeSensitiveName key))) value := by
  rw [redactField, redactEntry]
  exact if_neg h

/-- Items are redacted one by one. -/
theorem redactItems_eq_map (fieldNames : Finset String) (parentKey : Option String)
    (items : List (Payload ω)) :
    redactItems py headerNames redactedValue fieldNames parentKey items =
      items.map (redactAt py headerNames redactedValue (.value fieldNames parentKey)) := by
  induction items with
  | nil => rw [redactItems, List.map_nil]
  | cons item items ih =>
    rw [redactItems, List.map_cons, ih]
    rfl

/-- So are headers. -/
theorem redactHeaders_eq_map (items : List (Payload ω)) :
    redactHeaders py headerNames redactedValue items =
      items.map (redactAt py headerNames redactedValue .header) := by
  induction items with
  | nil => rw [redactHeaders, List.map_nil]
  | cons item items ih =>
    rw [redactHeaders, List.map_cons, ih]
    rfl

/-- The loop over the entries is the same on a dict whose keys are made strings first. -/
theorem redactEntries_mapWithKey (fieldNames : Finset String) (d : OrderedDict String (Payload ω))
    (entries : List (Entry ω)) :
    redactEntries py headerNames redactedValue fieldNames
        (d.mapWithKey (redactField py headerNames redactedValue fieldNames)) entries =
      (d.update (entries.map fun entry => (py.str (.scalar entry.1), entry.2))).mapWithKey
        (redactField py headerNames redactedValue fieldNames) := by
  induction entries generalizing d with
  | nil =>
    rw [redactEntries]
    rfl
  | cons entry entries ih =>
    have hentry : redactEntry py headerNames redactedValue fieldNames entry =
        redactField py headerNames redactedValue fieldNames (py.str (.scalar entry.1)) entry.2 := by
      obtain ⟨key, item⟩ := entry
      rw [redactField, redactEntry, redactEntry]
      rfl
    rw [redactEntries, hentry, OrderedDict.mapWithKey_set, ih]
    rfl

/-- Entries are redacted under their keys as texts. -/
theorem redactEntries_eq (fieldNames : Finset String) (entries : List (Entry ω)) :
    redactEntries py headerNames redactedValue fieldNames .empty entries =
      (py.texts entries).mapWithKey (redactField py headerNames redactedValue fieldNames) :=
  redactEntries_mapWithKey py headerNames redactedValue fieldNames .empty entries

end Redaction

/-! ### Alike payloads -/

/-- The two dicts are both sensitive header entries, or neither is. -/
def SameKind (py : Python ω) (headerNames : Finset String) [DecidableEq ω] (xs ys : List (Entry ω)) :
    Prop :=
  py.headerKey xs ∈ headerNames ↔ py.headerKey ys ∈ headerNames

/-- A payload of a dictionary depends on its entries only. -/
theorem Payload.ofDict_congr {d d' : OrderedDict String (Payload ω)} (h : d.entries = d'.entries) :
    Payload.ofDict d = Payload.ofDict d' := by
  rw [Payload.ofDict, Payload.ofDict, h]

section Hidden

variable [DecidableEq ω] {py : Python ω} {headerNames : Finset String}
  {paired : List (Entry ω) → List (Entry ω) → Prop}

/-- Entries are like themselves. -/
theorem AlikeEntries.refl (fieldNames : Finset String) (entries : List (String × Payload ω)) :
    AlikeEntries py headerNames paired fieldNames entries entries := by
  induction entries with
  | nil => exact .nil
  | cons entry entries ih => exact .cons (.same entry.2) ih

/-- Lists that differ in one item are alike if the two items are. -/
theorem AlikeItems.append_cons {place : Place} {v w : Payload ω}
    (h : Alike py headerNames paired place v w) (xs ys : List (Payload ω)) :
    AlikeItems py headerNames paired place (xs ++ v :: ys) (xs ++ w :: ys) := by
  induction xs with
  | nil =>
    refine .cons h ?_
    induction ys with
    | nil => exact .nil
    | cons y ys ih => exact .cons (.same y) ih
  | cons x xs ih => exact .cons (.same x) ih

mutual

/-- Redaction makes alike payloads equal. -/
theorem Alike.redactAt_eq (redactedValue : String) :
    ∀ {place : Place} {p q : Payload ω},
      Alike py headerNames (SameKind py headerNames) place p q →
        redactAt py headerNames redactedValue place p = redactAt py headerNames redactedValue place q
  | _, _, _, .same _ => rfl
  | _, _, _, .list hparent hitems => by
    rw [redactAt, redactValue, redactValue, if_neg hparent, if_neg hparent, redactItems_eq_map,
      redactItems_eq_map, AlikeItems.map_redactAt_eq redactedValue hitems]
  | _, _, _, .headers hitems => by
    rw [redactAt, redactValue, redactValue, if_pos rfl, if_pos rfl, redactHeaders_eq_map,
      redactHeaders_eq_map, AlikeItems.map_redactAt_eq redactedValue hitems]
  | _, _, _, .dict hentries => by
    rw [redactAt, redactValue, redactValue, redactEntries_eq, redactEntries_eq]
    exact Payload.ofDict_congr (AlikeEntries.map_redactField_eq redactedValue hentries)
  | _, _, _, .header hkey hpaired hentries => by
    rw [redactAt, redactHeader, redactHeader, if_pos hkey, if_pos (mt hpaired.mpr hkey),
      redactEntries_eq, redactEntries_eq]
    exact Payload.ofDict_congr (AlikeEntries.map_redactField_eq redactedValue hentries)
  | _, _, _, .sensitiveHeader hkey hkey' hvalue => by
    rw [redactAt, redactHeader, redactHeader, if_neg (not_not.mpr hkey),
      if_neg (not_not.mpr hkey'), hvalue]

/-- Items that are alike look the same when they are redacted. -/
theorem AlikeItems.map_redactAt_eq (redactedValue : String) :
    ∀ {place : Place} {xs ys : List (Payload ω)},
      AlikeItems py headerNames (SameKind py headerNames) place xs ys →
        xs.map (redactAt py headerNames redactedValue place) =
          ys.map (redactAt py headerNames redactedValue place)
  | _, _, _, .nil => rfl
  | _, _, _, .cons hitem hitems => by
    rw [List.map_cons, List.map_cons, Alike.redactAt_eq redactedValue hitem,
      AlikeItems.map_redactAt_eq redactedValue hitems]

/-- So do entries that are alike. -/
theorem AlikeEntries.map_redactField_eq (redactedValue : String) :
    ∀ {fieldNames : Finset String} {xs ys : List (String × Payload ω)},
      AlikeEntries py headerNames (SameKind py headerNames) fieldNames xs ys →
        (xs.map fun entry =>
            (entry.1, redactField py headerNames redactedValue fieldNames entry.1 entry.2)) =
          ys.map fun entry =>
            (entry.1, redactField py headerNames redactedValue fieldNames entry.1 entry.2)
  | _, _, _, .nil => rfl
  | _, _, _, .field hkey hentries => by
    rw [List.map_cons, List.map_cons, redactField_of_mem _ _ _ hkey, redactField_of_mem _ _ _ hkey,
      AlikeEntries.map_redactField_eq redactedValue hentries]
  | fieldNames, (key, _) :: _, _, .cons hvalue hentries => by
    rw [List.map_cons, List.map_cons, AlikeEntries.map_redactField_eq redactedValue hentries]
    by_cases hkey : py.normalizeSensitiveName key ∈ fieldNames
    · rw [redactField_of_mem _ _ _ hkey, redactField_of_mem _ _ _ hkey]
    · rw [redactField_of_not_mem _ _ _ hkey, redactField_of_not_mem _ _ _ hkey,
        Alike.redactAt_eq redactedValue hvalue]

end

end Hidden

/-! ### What stays -/

/-- Induction over payloads, with the hypothesis for all items of a list and all values of a dict. -/
@[elab_as_elim]
theorem Payload.induction {motive : Payload ω → Prop} (scalar : ∀ value, motive (.scalar value))
    (list : ∀ items, (∀ item ∈ items, motive item) → motive (.list items))
    (dict : ∀ entries : List (Entry ω), (∀ entry ∈ entries, motive entry.2) →
      motive (.dict entries)) : ∀ payload, motive payload
  | .scalar value => scalar value
  | .list items => list items fun item _ => Payload.induction scalar list dict item
  | .dict entries => dict entries fun entry _ => Payload.induction scalar list dict entry.2
termination_by payload => sizeOf payload
decreasing_by
  · have hsize := List.sizeOf_lt_of_mem ‹item ∈ items›
    rw [Payload.list.sizeOf_spec]
    omega
  · have hsize := List.sizeOf_lt_of_mem ‹entry ∈ entries›
    have hentry : sizeOf entry = 1 + sizeOf entry.1 + sizeOf entry.2 := rfl
    rw [Payload.dict.sizeOf_spec]
    omega

/-- A dict whose keys are strings is not changed by making them strings. -/
theorem Python.texts_map_str (py : Python ω) (d : OrderedDict String (Payload ω)) :
    py.texts (d.entries.map fun entry => (.str entry.1, entry.2)) = d := by
  unfold Python.texts
  rw [List.map_map]
  exact (congrArg OrderedDict.ofEntries (List.map_id d.entries)).trans d.ofEntries_entries

/-- The values under the keys as texts are values of the dictionary. -/
theorem Python.mem_texts (py : Python ω) {entries : List (Entry ω)} {entry : String × Payload ω}
    (h : entry ∈ (py.texts entries).entries) : ∃ entry' ∈ entries, entry'.2 = entry.2 := by
  rcases OrderedDict.mem_of_mem_update h with hempty | hmem
  · exact absurd hempty List.not_mem_nil
  · obtain ⟨entry', hmem', rfl⟩ := List.mem_map.mp hmem
    exact ⟨entry', hmem', rfl⟩

section Kept

variable [DecidableEq ω] (py : Python ω)

/-- The value of a header entry does not count for its key. -/
theorem Python.headerKey_setEntry_value (entries : List (Entry ω)) (value : Payload ω) :
    py.headerKey (OrderedDict.setEntry entries (.str "value") value) = py.headerKey entries := by
  have hkey : ¬ (Scalar.str "key" : Scalar ω) = .str "value" := fun h =>
    absurd (Scalar.str.inj h) (by decide)
  rw [Python.headerKey, OrderedDict.lookup_setEntry, if_neg hkey, Python.headerKey]

/-- Entry by entry, a redacted value is alike to the old one, or it stands under a sensitive name. -/
theorem alikeEntries_redactField {headerNames : Finset String} {redactedValue : String}
    {fieldNames : Finset String} {entries : List (String × Payload ω)}
    (h : ∀ entry ∈ entries, ∀ place, Alike py headerNames (fun _ _ => True) place entry.2
      (redactAt py headerNames redactedValue place entry.2)) :
    AlikeEntries py headerNames (fun _ _ => True) fieldNames entries
      (entries.map fun entry =>
        (entry.1, redactField py headerNames redactedValue fieldNames entry.1 entry.2)) := by
  induction entries with
  | nil => exact .nil
  | cons entry entries ih =>
    obtain ⟨hentry, hlater⟩ := List.forall_mem_cons.mp h
    rw [List.map_cons]
    by_cases hkey : py.normalizeSensitiveName entry.1 ∈ fieldNames
    · exact .field hkey (ih hlater)
    · rw [redactField_of_not_mem _ _ _ hkey]
      exact .cons (hentry _) (ih hlater)

/-- What redaction leaves is alike to the payload, whatever the header entries are. -/
theorem alike_redactAt (headerNames : Finset String)
    (redactedValue : String) (payload : Payload ω) (place : Place) :
    Alike py headerNames (fun _ _ => True) place payload
      (redactAt py headerNames redactedValue place payload) := by
  induction payload using Payload.induction generalizing place with
  | scalar value =>
    cases place with
    | value fieldNames parentKey =>
      rw [redactAt, redactValue]
      exact .same _
    | header =>
      rw [redactAt, redactHeader]
      · exact .same _
      · exact nofun
  | list items ih =>
    have hitems : ∀ place, AlikeItems py headerNames (fun _ _ => True) place items
        (items.map (redactAt py headerNames redactedValue place)) := by
      intro place
      induction items with
      | nil => exact .nil
      | cons item items ihitems =>
        obtain ⟨hitem, hlater⟩ := List.forall_mem_cons.mp ih
        exact .cons (hitem place) (ihitems hlater)
    cases place with
    | value fieldNames parentKey =>
      rw [redactAt, redactValue]
      by_cases hparent : parentKey = some "headers"
      · rw [if_pos hparent, hparent, redactHeaders_eq_map]
        exact .headers (hitems .header)
      · rw [if_neg hparent, redactItems_eq_map]
        exact .list hparent (hitems _)
    | header =>
      rw [redactAt, redactHeader]
      · exact .same _
      · exact nofun
  | dict entries ih =>
    have hentries : ∀ fieldNames, AlikeEntries py headerNames (fun _ _ => True) fieldNames
        (py.texts entries).entries
        (py.texts (((py.texts entries).mapWithKey
          (redactField py headerNames redactedValue fieldNames)).entries.map fun entry =>
            (.str entry.1, entry.2))).entries := by
      intro fieldNames
      rw [py.texts_map_str]
      have hvalues : ∀ entry ∈ (py.texts entries).entries, ∀ place,
          Alike py headerNames (fun _ _ => True) place entry.2
            (redactAt py headerNames redactedValue place entry.2) := by
        intro entry hmem
        obtain ⟨entry', hmem', hsame⟩ := py.mem_texts hmem
        rw [← hsame]
        exact ih entry' hmem'
      exact alikeEntries_redactField py hvalues
    cases place with
    | value fieldNames parentKey =>
      rw [redactAt, redactValue, redactEntries_eq]
      exact .dict (hentries fieldNames)
    | header =>
      rw [redactAt, redactHeader]
      by_cases hkey : py.headerKey entries ∈ headerNames
      · rw [if_neg (not_not.mpr hkey)]
        refine .sensitiveHeader hkey ?_ fun value =>
          (OrderedDict.setEntry_setEntry entries (.str "value") _ value).symm
        rwa [py.headerKey_setEntry_value]
      · rw [if_pos hkey, redactEntries_eq]
        exact .header hkey trivial (hentries ∅)

end Kept

/-! ### One sensitive value -/

section Changed

variable [DecidableEq ω] (py : Python ω) (fieldNames headerNames : Finset String)

/-- Two payloads differ in one sensitive value: one under the name of a sensitive field, at any depth, or
the value of a sensitive header entry.  The flag says whether it is inside an item of a list under
`headers` other than as the value of that entry. -/
inductive SecretChanged : Bool → Option String → Payload ω → Payload ω → Prop
  | field {parentKey : Option String} {key : Scalar ω} (v w : Payload ω) (xs ys : List (Entry ω))
      (hkey : py.name key ∈ fieldNames) :
      SecretChanged false parentKey (.dict (xs ++ (key, v) :: ys)) (.dict (xs ++ (key, w) :: ys))
  | headerValue {xs ys : List (Entry ω)} (v w : Payload ω) (before after : List (Payload ω))
      (hkey : py.headerKey (xs ++ (.str "value", v) :: ys) ∈ headerNames)
      (hfirst : Scalar.str "value" ∉ xs.map Prod.fst) :
      SecretChanged false (some "headers")
        (.list (before ++ .dict (xs ++ (.str "value", v) :: ys) :: after))
        (.list (before ++ .dict (xs ++ (.str "value", w) :: ys) :: after))
  | entry {inside : Bool} {parentKey : Option String} {key : Scalar ω} {v w : Payload ω}
      (xs ys : List (Entry ω)) (hvalue : SecretChanged inside (some (py.name key)) v w) :
      SecretChanged inside parentKey (.dict (xs ++ (key, v) :: ys)) (.dict (xs ++ (key, w) :: ys))
  | item {inside : Bool} {parentKey : Option String} {v w : Payload ω} (xs ys : List (Payload ω))
      (hparent : parentKey ≠ some "headers") (hitem : SecretChanged inside parentKey v w) :
      SecretChanged inside parentKey (.list (xs ++ v :: ys)) (.list (xs ++ w :: ys))
  | headerItem {inside : Bool} {v w : Payload ω} (xs ys : List (Payload ω))
      (hitem : SecretChanged inside (some "headers") v w) :
      SecretChanged true (some "headers") (.list (xs ++ v :: ys)) (.list (xs ++ w :: ys))

end Changed

section Changed

variable [DecidableEq ω] {py : Python ω} {fieldNames headerNames : Finset String}
  {paired : List (Entry ω) → List (Entry ω) → Prop}

/-- Alike entries stay so when alike values are set. -/
theorem AlikeEntries.setEntry {key : String} {v w : Payload ω}
    {xs ys : List (String × Payload ω)}
    (h : AlikeEntries py headerNames paired fieldNames xs ys)
    (hvalue : py.normalizeSensitiveName key ∈ fieldNames ∨
      Alike py headerNames paired
        (.value fieldNames (some (py.normalizeSensitiveName key))) v w) :
    AlikeEntries py headerNames paired fieldNames (OrderedDict.setEntry xs key v)
      (OrderedDict.setEntry ys key w) := by
  induction xs generalizing ys with
  | nil =>
    cases h
    rcases hvalue with hkey | halike
    · exact .field hkey .nil
    · exact .cons halike .nil
  | cons entry xs ih =>
    cases h with
    | field hfirst hentries =>
      rw [OrderedDict.setEntry, OrderedDict.setEntry]
      split
      next hsame => exact .field hfirst hentries
      next hne => exact .field hfirst (ih hentries)
    | cons hfirst hentries =>
      rw [OrderedDict.setEntry, OrderedDict.setEntry]
      split
      next hsame =>
        subst hsame
        rcases hvalue with hkey | halike
        · exact .field hkey hentries
        · exact .cons halike hentries
      next hne => exact .cons hfirst (ih hentries)

/-- Or when they are updated by the same entries. -/
theorem AlikeEntries.update {d d' : OrderedDict String (Payload ω)}
    (h : AlikeEntries py headerNames paired fieldNames d.entries d'.entries)
    (entries : List (String × Payload ω)) :
    AlikeEntries py headerNames paired fieldNames (d.update entries).entries
      (d'.update entries).entries := by
  induction entries generalizing d d' with
  | nil => exact h
  | cons entry entries ih => exact ih (h.setEntry (.inr (.same entry.2)))

/-- Dicts that differ in one value are alike if it is sensitive or the values are alike. -/
theorem alikeEntries_texts {key : Scalar ω} {v w : Payload ω} (xs ys : List (Entry ω))
    (hvalue : py.name key ∈ fieldNames ∨
      Alike py headerNames paired (.value fieldNames (some (py.name key))) v w) :
    AlikeEntries py headerNames paired fieldNames (py.texts (xs ++ (key, v) :: ys)).entries
      (py.texts (xs ++ (key, w) :: ys)).entries := by
  have hsplit : ∀ value : Payload ω, py.texts (xs ++ (key, value) :: ys) =
      ((py.texts xs).set (py.str (.scalar key)) value).update
        (ys.map fun entry => (py.str (.scalar entry.1), entry.2)) := by
    intro value
    unfold Python.texts OrderedDict.ofEntries OrderedDict.update
    rw [List.map_append, List.foldl_append]
    rfl
  rw [hsplit, hsplit]
  have hset : AlikeEntries py headerNames paired fieldNames
      ((py.texts xs).set (py.str (.scalar key)) v).entries
      ((py.texts xs).set (py.str (.scalar key)) w).entries :=
    (AlikeEntries.refl fieldNames (py.texts xs).entries).setEntry hvalue
  exact hset.update _

/-- A sensitive value outside the items of lists under `headers` may be any other. -/
theorem SecretChanged.alike {parentKey : Option String} {p q : Payload ω} {inside : Bool}
    (h : SecretChanged py fieldNames headerNames inside parentKey p q) (hinside : inside = false) :
    Alike py headerNames (SameKind py headerNames) (.value fieldNames parentKey) p q := by
  induction h with
  | field v w xs ys hkey => exact .dict (alikeEntries_texts xs ys (.inl hkey))
  | @headerValue xs ys v w before after hkey hfirst =>
    have hset : ∀ old value : Payload ω,
        OrderedDict.setEntry (xs ++ (.str "value", old) :: ys) (.str "value") value =
          xs ++ (.str "value", value) :: ys := fun old value =>
      OrderedDict.setEntry_append_cons hfirst old value ys
    have hkey' : py.headerKey (xs ++ (.str "value", w) :: ys) ∈ headerNames := by
      rw [← hset v w, py.headerKey_setEntry_value]
      exact hkey
    have hitem : Alike py headerNames (SameKind py headerNames) .header
        (.dict (xs ++ (.str "value", v) :: ys)) (.dict (xs ++ (.str "value", w) :: ys)) :=
      Alike.sensitiveHeader hkey hkey' fun value =>
      (hset v value).trans (hset w value).symm
    exact .headers (AlikeItems.append_cons hitem before after)
  | entry xs ys hvalue ih => exact .dict (alikeEntries_texts xs ys (.inr (ih hinside)))
  | item xs ys hparent hitem ih =>
    exact .list hparent (AlikeItems.append_cons (ih hinside) xs ys)
  | headerItem xs ys hitem ih => exact nomatch hinside

end Changed

/-! ### The policy -/

namespace DLQPayloadPolicy

variable [DecidableEq ω] (py : Python ω)

/-- The payloads differ only in what the policy replaces. -/
def Indistinguishable (policy : DLQPayloadPolicy) (p q : Payload ω) : Prop :=
  Alike py policy.headerNames (SameKind py policy.headerNames) (.value policy.fieldNames none) p q

/-- The second payload is the first one, with string keys, but for what the policy replaces. -/
def Keeps (policy : DLQPayloadPolicy) (p q : Payload ω) : Prop :=
  Alike py policy.headerNames (fun _ _ => True) (.value policy.fieldNames none) p q

/-- Redaction hides what it replaces, and nothing else changes. -/
theorem apply_redacted (redactFields redactHeaders : List String) (redactedValue : String)
    (includeCommonSensitiveNames : Bool) :
    let policy := redacted py redactFields redactHeaders redactedValue includeCommonSensitiveNames
    (∀ p q : Payload ω, policy.Indistinguishable py p q →
        policy.apply py p = policy.apply py q) ∧
      ∀ p : Payload ω, policy.Keeps py p (policy.apply py p) := by
  intro policy
  exact ⟨fun p q h => h.redactAt_eq policy.redactedValue,
    fun p => alike_redactAt py policy.headerNames policy.redactedValue p (.value policy.fieldNames none)⟩

/-- Texts that are trimmed and in lower case as they are. -/
def plainTexts : Python Empty := ⟨fun _ => "", id, id⟩

/-- A password in the body of a record, and a token and a number among its headers. -/
def securedPayload (password token : String) : Payload Empty :=
  .dict [(.str "body", .dict [(.str "password", .scalar (.str password))]),
    (.str "headers", .list [
      .dict [(.str "key", .scalar (.str "authorization")), (.str "value", .scalar (.str token))],
      .dict [(.str "key", .scalar (.str "x-request")), (.str "value", .scalar (.str "7"))]])]

/-- Neither the password nor the token is seen, and the other header is kept. -/
theorem apply_redacted_secured :
    (redacted plainTexts [] [] redactedText true).apply plainTexts (securedPayload "abc" "t1") =
        (redacted plainTexts [] [] redactedText true).apply plainTexts (securedPayload "xyz" "t2") ∧
      (redacted plainTexts [] [] redactedText true).Keeps plainTexts (securedPayload "abc" "t1")
        ((redacted plainTexts [] [] redactedText true).apply plainTexts
          (securedPayload "abc" "t1")) := by
  obtain ⟨hhidden, hkept⟩ := apply_redacted plainTexts [] [] redactedText true
  have hpassword : (redacted plainTexts [] [] redactedText true).Indistinguishable plainTexts
      (securedPayload "abc" "t1") (securedPayload "xyz" "t1") :=
    SecretChanged.alike (.entry [] _
      (.field (.scalar (.str "abc")) (.scalar (.str "xyz")) [] [] (by decide))) rfl
  have hheader : plainTexts.headerKey ([(.str "key", .scalar (.str "authorization"))] ++
      (.str "value", .scalar (.str "t1")) :: []) ∈
        (redacted plainTexts [] [] redactedText true).headerNames := by decide
  have htoken : (redacted plainTexts [] [] redactedText true).Indistinguishable plainTexts
      (securedPayload "xyz" "t1") (securedPayload "xyz" "t2") :=
    SecretChanged.alike (.entry [(.str "body", _)] []
      (.headerValue (.scalar (.str "t1")) (.scalar (.str "t2")) [] _ hheader (by simp))) rfl
  exact ⟨(hhidden _ _ hpassword).trans (hhidden _ _ htoken), hkept _⟩

/-- The same password inside the value of a header entry whose key is not sensitive. -/
def headerPayload (password : String) : Payload Empty :=
  .dict [(.str "headers", .list [.dict [(.str "key", .scalar (.str "x-request")),
    (.str "value", .dict [(.str "password", .scalar (.str password))])]])]

/-- In a header entry the names of fields do not count, and the password stays. -/
theorem not_apply_redacted_header :
    ∃ p q : Payload Empty,
      SecretChanged plainTexts (redacted plainTexts [] [] redactedText true).fieldNames
          (redacted plainTexts [] [] redactedText true).headerNames true none p q ∧
        (redacted plainTexts [] [] redactedText true).apply plainTexts p ≠
          (redacted plainTexts [] [] redactedText true).apply plainTexts q := by
  refine ⟨headerPayload "abc", headerPayload "xyz", ?_, ?_⟩
  · exact .entry [] [] (.headerItem [] [] (.entry [(.str "key", .scalar (.str "x-request"))] []
      (.field (.scalar (.str "abc")) (.scalar (.str "xyz")) [] [] (by decide))))
  · have hkept : ∀ password : String, (redacted plainTexts [] [] redactedText true).apply plainTexts
        (headerPayload password) = headerPayload password := fun password => rfl
    rw [hkept, hkept]
    simp [headerPayload]

end DLQPayloadPolicy

end AgoraEtl.DLQPolicy
