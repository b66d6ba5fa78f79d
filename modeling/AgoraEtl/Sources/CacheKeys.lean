import AgoraEtl.Data.Joined
import AgoraEtl.Sources.HttpCache

/-!
# Which requests share an entry

The key of a request tells its parameters and headers, and its source and URL up to a part that moves
over the separator (`makeKey_eq_iff`).  Against a cache with an entry for every request, as told apart by
`HttpRequest.Same`, the replies are the same on all runs with requests of which no two straddle, and on
no larger set of requests (`replies_eq_iff`).
-/

namespace AgoraEtl

open JsonText

/-! ### Requests that are the same -/

/-- Two mappings have the same items; no mapping is as good as an empty one. -/
def SameMapping (m m' : Option (OrderedDict Text Text)) : Prop :=
  ∀ key, (m.getD .empty).get? key = (m'.getD .empty).get? key

/-- Two requests have the same source, URL, parameters and headers. -/
structure HttpRequest.Same (r r' : HttpRequest) : Prop where
  source : r.source = r'.source
  url : r.url = r'.url
  params : SameMapping r.params r'.params
  headers : SameMapping r.headers r'.headers

/-- Two requests have the same parameters and headers, and the source of the second is that of the first
with a part of its URL: two bars and what is between them and the next two, or a single bar. -/
structure HttpRequest.Straddles (r r' : HttpRequest) : Prop where
  part : (∃ middle, r'.source = r.source ++ (['|', '|'] ++ middle) ∧
      r.url = middle ++ (['|', '|'] ++ r'.url)) ∨
    (r'.source = r.source ++ ['|'] ∧ r.url = '|' :: r'.url)
  params : SameMapping r.params r'.params
  headers : SameMapping r.headers r'.headers

/-! ### The text of a request -/

instance (m m' : Option (OrderedDict Text Text)) : Decidable (SameMapping m m') :=
  decidable_of_iff _ OrderedDict.sortedItems_eq_iff

/-- Being the same mapping is symmetric. -/
theorem SameMapping.symm {m m' : Option (OrderedDict Text Text)} (h : SameMapping m m') :
    SameMapping m' m := fun key => (h key).symm

/-- It is transitive. -/
theorem SameMapping.trans {m m' m'' : Option (OrderedDict Text Text)} (h : SameMapping m m')
    (h' : SameMapping m' m'') : SameMapping m m'' := fun key => (h key).trans (h' key)

/-- A mapping is written as nothing if it is empty, and else as its sorted items. -/
theorem normalizeMapping_cases (m : Option (OrderedDict Text Text)) :
    ((m.getD .empty).sortedItems = [] ∧ normalizeMapping m = []) ∨
      ((m.getD .empty).sortedItems ≠ [] ∧
        normalizeMapping m = jsonPairs (m.getD .empty).sortedItems) := by
  rw [ne_eq, OrderedDict.sortedItems_eq_nil_iff]
  by_cases hitems : (m.getD .empty).entries = []
  · exact .inl ⟨hitems, if_pos hitems⟩
  · exact .inr ⟨hitems, if_neg hitems⟩

/-- The text of a mapping tells its items. -/
theorem normalizeMapping_eq_iff {m m' : Option (OrderedDict Text Text)} :
    normalizeMapping m = normalizeMapping m' ↔ SameMapping m m' := by
  unfold SameMapping
  rw [← OrderedDict.sortedItems_eq_iff]
  rcases normalizeMapping_cases m with ⟨hitems, hm⟩ | ⟨hitems, hm⟩ <;>
    rcases normalizeMapping_cases m' with ⟨hitems', hm'⟩ | ⟨hitems', hm'⟩ <;> rw [hm, hm']
  · simp [hitems, hitems']
  · exact ⟨fun h => absurd h.symm (List.cons_ne_nil _ _), fun h => absurd (h ▸ hitems) hitems'⟩
  · exact ⟨fun h => absurd h (List.cons_ne_nil _ _), fun h => absurd (h ▸ hitems') hitems⟩
  · exact jsonPairs_injective.eq_iff

/-- A bar is a plain character. -/
theorem plain_bar : Place.Plain '|' := by constructor <;> decide

/-- The text of a mapping does not end with a bar and the text of another one. -/
theorem normalizeMapping_ne_append (m m' : Option (OrderedDict Text Text)) (front : Text) :
    normalizeMapping m ≠ front ++ '|' :: normalizeMapping m' := by
  rcases normalizeMapping_cases m with ⟨-, hm⟩ | ⟨-, hm⟩ <;> rw [hm]
  · exact fun h => absurd (List.append_eq_nil_iff.mp h.symm).2 (List.cons_ne_nil _ _)
  · rcases normalizeMapping_cases m' with ⟨-, hm'⟩ | ⟨-, hm'⟩ <;> rw [hm']
    · intro h
      have hlast := congrArg List.getLast? h
      rw [getLast?_jsonPairs, List.getLast?_concat] at hlast
      exact absurd (Option.some.inj hlast) (by decide)
    · exact jsonPairs_ne_append plain_bar _ _ front

/-- The text of a mapping is read off the end of a text, where a bar is in front of it. -/
theorem append_normalizeMapping_inj {m m' : Option (OrderedDict Text Text)} {front front' : Text}
    (h : front ++ '|' :: normalizeMapping m = front' ++ '|' :: normalizeMapping m') :
    front = front' ∧ normalizeMapping m = normalizeMapping m' := by
  rcases List.append_eq_append_iff.mp h with ⟨part, hfront, hrest⟩ | ⟨part, hfront, hrest⟩
  · cases part with
    | nil => exact ⟨by rw [hfront, List.append_nil], (List.cons.inj hrest).2⟩
    | cons c part => exact absurd (List.cons.inj hrest).2 (normalizeMapping_ne_append m m' part)
  · cases part with
    | nil => exact ⟨by rw [hfront, List.append_nil], (List.cons.inj hrest).2.symm⟩
    | cons c part => exact absurd (List.cons.inj hrest).2 (normalizeMapping_ne_append m' m part)

/-- The text of a request, with the bars between its parts. -/
theorem HttpRequest.raw_eq (r : HttpRequest) :
    r.raw = ((r.source ++ (['|', '|'] ++ r.url)) ++ ['|'] ++ '|' :: normalizeMapping r.params) ++ ['|'] ++
      '|' :: normalizeMapping r.headers := by
  simp [raw, List.intercalate]

/-- The text of a request tells its parameters and headers, and its source and URL joined. -/
theorem HttpRequest.raw_eq_iff {r r' : HttpRequest} :
    r.raw = r'.raw ↔ r.source ++ (['|', '|'] ++ r.url) = r'.source ++ (['|', '|'] ++ r'.url) ∧
      SameMapping r.params r'.params ∧ SameMapping r.headers r'.headers := by
  rw [raw_eq, raw_eq, ← normalizeMapping_eq_iff, ← normalizeMapping_eq_iff]
  constructor
  · intro h
    obtain ⟨hfront, hheaders⟩ := append_normalizeMapping_inj h
    obtain ⟨hjoined, hparams⟩ := append_normalizeMapping_inj (List.append_cancel_right hfront)
    exact ⟨List.append_cancel_right hjoined, hparams, hheaders⟩
  · rintro ⟨hjoined, hparams, hheaders⟩
    rw [hjoined, hparams, hheaders]

variable {H : Type} {sha256 : Bytes → H} {r r' : HttpRequest}

/-- When two requests have the same key. -/
theorem makeKey_eq_iff (hsha256 : Function.Injective sha256) :
    makeKey sha256 r = makeKey sha256 r' ↔ r.Same r' ∨ r.Straddles r' ∨ r'.Straddles r := by
  have hkey : makeKey sha256 r = makeKey sha256 r' ↔ r.raw = r'.raw :=
    (hsha256.comp utf8_injective).eq_iff
  have hjoined : r.source ++ (['|', '|'] ++ r.url) = r'.source ++ (['|', '|'] ++ r'.url) ↔
      (r.source, r.url) = (r'.source, r'.url) ∨
        Joined.Straddles ['|', '|'] (r.source, r.url) (r'.source, r'.url) ∨
        Joined.Straddles ['|', '|'] (r'.source, r'.url) (r.source, r.url) := Joined.eq_iff
  rw [Prod.mk.injEq] at hjoined
  rw [Joined.straddles_pair_iff, Joined.straddles_pair_iff] at hjoined
  rw [hkey, HttpRequest.raw_eq_iff, hjoined]
  constructor
  · rintro ⟨⟨hsource, hurl⟩ | hpart | hpart, hparams, hheaders⟩
    · exact .inl ⟨hsource, hurl, hparams, hheaders⟩
    · exact .inr (.inl ⟨hpart, hparams, hheaders⟩)
    · exact .inr (.inr ⟨hpart, hparams.symm, hheaders.symm⟩)
  · rintro (h | h | h)
    · exact ⟨.inl ⟨h.source, h.url⟩, h.params, h.headers⟩
    · exact ⟨.inr (.inl h.part), h.params, h.headers⟩
    · exact ⟨.inr (.inr h.part), h.params.symm, h.headers.symm⟩

/-! ### A cache of requests -/

instance (r r' : HttpRequest) : Decidable (r.Same r') :=
  decidable_of_iff
    (r.source = r'.source ∧ r.url = r'.url ∧ SameMapping r.params r'.params ∧
      SameMapping r.headers r'.headers)
    ⟨fun h => ⟨h.1, h.2.1, h.2.2.1, h.2.2.2⟩, fun h => ⟨h.source, h.url, h.params, h.headers⟩⟩

/-- A request is the same as itself. -/
theorem HttpRequest.Same.refl (r : HttpRequest) : r.Same r := ⟨rfl, rfl, fun _ => rfl, fun _ => rfl⟩

/-- Being the same request is symmetric. -/
theorem HttpRequest.Same.symm (h : r.Same r') : r'.Same r :=
  ⟨h.source.symm, h.url.symm, h.params.symm, h.headers.symm⟩

/-- It is transitive. -/
theorem HttpRequest.Same.trans {r'' : HttpRequest} (h : r.Same r') (h' : r'.Same r'') : r.Same r'' :=
  ⟨h.source.trans h'.source, h.url.trans h'.url, h.params.trans h'.params, h.headers.trans h'.headers⟩

/-- Requests of which one straddles the other are not the same. -/
theorem HttpRequest.Straddles.not_same (h : r.Straddles r') : ¬ r.Same r' := by
  have hpart : Joined.Straddles ['|', '|'] (r.source, r.url) (r'.source, r'.url) :=
    Joined.straddles_pair_iff.mpr h.part
  exact fun hsame => hpart.ne hsame.source

/-- The cache as it is meant: for every request, the body that was stored for it and when. -/
def RequestCache : Type := HttpRequest → Option (Text × ℚ)

namespace RequestCache

def empty : RequestCache := fun _ => none

/-- Put an entry, or nothing, for a request. -/
def put (c : RequestCache) (r : HttpRequest) (entry : Option (Text × ℚ)) : RequestCache :=
  fun r' => if r'.Same r then entry else c r'

def step (ttl : ℤ) (c : RequestCache) (now : ℚ) (r : HttpRequest) :
    EntryOp → HttpReply × RequestCache
  | .get =>
    match c r with
    | none => (.body none, c)
    | some (body, cachedAt) =>
      if now - cachedAt > ttl then (.body none, c.put r none) else (.body (some body), c)
  | .set body => (.nothing, c.put r (some (body, now)))
  | .invalidate => (.nothing, c.put r none)

def replies (ttl : ℤ) (c : RequestCache) : List (ℚ × HttpRequest × EntryOp) → List HttpReply
  | [] => []
  | (now, r, op) :: ops => (step ttl c now r op).1 :: replies ttl (step ttl c now r op).2 ops

end RequestCache

/-- The replies of a new cache to operations on the entries of requests. -/
def HttpCache.entryReplies [DecidableEq H] (sha256 : Bytes → H) (ttl : ℤ)
    (ops : List (ℚ × HttpRequest × EntryOp)) : List HttpReply :=
  (create ttl).replies sha256 (ops.map fun op => (op.1, .entry op.2.1 op.2.2))

variable [DecidableEq H]

/-- The table has the entries of the requests of a set. -/
def HttpCache.Holds (sha256 : Bytes → H) (R : Set HttpRequest) (cache : HttpCache H)
    (c : RequestCache) : Prop :=
  ∀ r ∈ R, (cache.content.get? (makeKey sha256 r)).map (fun row => (row.body, row.cachedAt)) = c r

/-- The keys tell the requests of a set apart. -/
def Separates (sha256 : Bytes → H) (R : Set HttpRequest) : Prop :=
  ∀ r ∈ R, ∀ r' ∈ R, (makeKey sha256 r = makeKey sha256 r' ↔ r.Same r')

variable {R : Set HttpRequest} {cache : HttpCache H} {c : RequestCache}

/-- The entry of one request is put, and that of no other. -/
theorem HttpCache.Holds.put {cache' : HttpCache H} (h : cache.Holds sha256 R c)
    (hkeys : Separates sha256 R) (hr : r ∈ R) {entry : Option HttpRow}
    (hput : ∀ key, cache'.content.get? key =
      if key = makeKey sha256 r then entry else cache.content.get? key) :
    cache'.Holds sha256 R (c.put r (entry.map fun row => (row.body, row.cachedAt))) := by
  intro r' hr'
  rw [hput, RequestCache.put]
  by_cases hsame : r'.Same r
  · rw [if_pos ((hkeys r' hr' r hr).mpr hsame), if_pos hsame]
  · rw [if_neg fun hkey => hsame ((hkeys r' hr' r hr).mp hkey), if_neg hsame]
    exact h r' hr'

/-- A deleted key is not there any more. -/
theorem HttpCache.get?_delete (key key' : H) :
    (cache.keepRows fun row => decide (row.1 ≠ key)).commitIfNotBulk.content.get? key' =
      if key' = key then none else cache.content.get? key' := by
  rw [content_commitIfNotBulk, keepRows, OrderedDict.get?_filter]
  by_cases hkey : key' = key
  · rw [if_pos hkey]
    simp [hkey]
  · rw [if_neg hkey]
    simp only [ne_eq, hkey, not_false_eq_true, decide_true]
    cases cache.content.get? key' <;> rfl

/-- An inserted row is found under its key. -/
theorem HttpCache.get?_insert (key key' : H) (row : HttpRow) :
    (cache.insertOrReplace key row).commitIfNotBulk.content.get? key' =
      if key' = key then some row else cache.content.get? key' := by
  rw [content_commitIfNotBulk, insertOrReplace, OrderedDict.get?_set, OrderedDict.get?_filterKeys]
  by_cases hkey : key' = key
  · rw [if_pos hkey, if_pos hkey]
  · rw [if_neg hkey, if_neg hkey, if_pos (decide_eq_true hkey)]

/-- An operation on the entry of a request does the same to both caches. -/
theorem HttpCache.Holds.step (h : cache.Holds sha256 R c) (hkeys : Separates sha256 R) (hr : r ∈ R)
    (now : ℚ) (op : EntryOp) :
    (cache.step sha256 now (.entry r op)).1 = (c.step cache.ttl now r op).1 ∧
      (cache.step sha256 now (.entry r op)).2.Holds sha256 R (c.step cache.ttl now r op).2 ∧
      (cache.step sha256 now (.entry r op)).2.ttl = cache.ttl := by
  cases op with
  | get =>
    have hfound := h r hr
    dsimp only [HttpCache.step, HttpCache.get, RequestCache.step]
    rw [← hfound]
    cases cache.content.get? (makeKey sha256 r) with
    | none => exact ⟨rfl, h, rfl⟩
    | some row =>
      dsimp only [Option.map_some]
      by_cases hexpired : now - row.cachedAt > cache.ttl
      · rw [if_pos hexpired, if_pos hexpired]
        exact ⟨rfl, h.put hkeys hr (get?_delete _), ttl_commitIfNotBulk⟩
      · rw [if_neg hexpired, if_neg hexpired]
        exact ⟨rfl, h, rfl⟩
  | set body => exact ⟨rfl, h.put hkeys hr fun _ => get?_insert _ _ _, ttl_commitIfNotBulk⟩
  | invalidate => exact ⟨rfl, h.put hkeys hr (get?_delete _), ttl_commitIfNotBulk⟩

/-- A run with requests of the set has the replies of the cache of requests. -/
theorem HttpCache.Holds.replies_eq (h : cache.Holds sha256 R c) (hkeys : Separates sha256 R)
    {ops : List (ℚ × HttpRequest × EntryOp)} (hops : ∀ op ∈ ops, op.2.1 ∈ R) :
    cache.replies sha256 (ops.map fun op => (op.1, .entry op.2.1 op.2.2)) =
      c.replies cache.ttl ops := by
  induction ops generalizing cache c with
  | nil => rfl
  | cons op ops ih =>
    obtain ⟨now, r, op⟩ := op
    obtain ⟨hreply, hholds, httl⟩ := h.step hkeys (hops _ List.mem_cons_self) now op
    rw [List.map_cons, HttpCache.replies, RequestCache.replies, hreply,
      ih hholds fun op hop => hops op (List.mem_cons_of_mem _ hop), httl]

/-- The key of a request that straddles another one finds the body that was stored for it. -/
theorem HttpCache.entryReplies_set_get (ttl : ℤ) (hkey : makeKey sha256 r = makeKey sha256 r')
    (body : Text) :
    entryReplies sha256 ttl [(0, r, .set body), (ttl, r', .get)] = [.nothing, .body (some body)] := by
  have hfound : ((create ttl).set sha256 0 r body).content.get? (makeKey sha256 r') =
      some ⟨r.url, body, r.source, 0⟩ := by
    rw [HttpCache.set, get?_insert, if_pos hkey.symm]
  have hget : ((create ttl).set sha256 0 r body).get sha256 ttl r' =
      (some body, (create ttl).set sha256 0 r body) := by
    have hfresh : ¬ ((ttl : ℚ) - 0 > ttl) := by rw [sub_zero]; exact lt_irrefl _
    have httl : ((create ttl).set sha256 0 r body).ttl = ttl := ttl_commitIfNotBulk
    dsimp only [HttpCache.get]
    rw [hfound]
    dsimp only
    rw [httl, if_neg hfresh]
  unfold entryReplies
  dsimp only [List.map, replies, HttpCache.step]
  rw [hget]

/-- The cache of requests finds nothing for another request. -/
theorem RequestCache.replies_set_get (ttl : ℤ) (h : ¬ r.Same r') (body : Text) :
    empty.replies ttl [(0, r, .set body), (ttl, r', .get)] = [.nothing, .body none] := by
  have hother : (empty.put r (some (body, 0))) r' = none :=
    if_neg fun hsame : r'.Same r => h hsame.symm
  dsimp only [replies, step]
  rw [hother]

/-- The key of a request is that of the same requests exactly if none straddles it, and the replies on
the entries of requests of a set are those of the cache of requests exactly if no two of them straddle. -/
theorem httpCache_separates_iff (hsha256 : Function.Injective sha256) :
    (∀ r r' : HttpRequest, (makeKey sha256 r = makeKey sha256 r' ↔ r.Same r') ↔
      ¬ (r.Straddles r' ∨ r'.Straddles r)) ∧
    ∀ (ttl : ℤ) (R : Set HttpRequest),
      (∀ ops : List (ℚ × HttpRequest × EntryOp), (∀ op ∈ ops, op.2.1 ∈ R) →
        HttpCache.entryReplies sha256 ttl ops = RequestCache.empty.replies ttl ops) ↔
      ∀ r ∈ R, ∀ r' ∈ R, ¬ r.Straddles r' := by
  refine ⟨fun r r' => ?_, fun ttl R => ⟨fun h r hr r' hr' hstraddles => ?_, fun h ops hops => ?_⟩⟩
  · rw [makeKey_eq_iff hsha256]
    constructor
    · rintro h (hstraddles | hstraddles)
      · exact hstraddles.not_same (h.mp (.inr (.inl hstraddles)))
      · exact hstraddles.not_same (h.mp (.inr (.inr hstraddles))).symm
    · exact fun h => ⟨fun hkey => hkey.resolve_right h, .inl⟩
  · have hkey : makeKey sha256 r = makeKey sha256 r' := (makeKey_eq_iff hsha256).mpr (.inr (.inl hstraddles))
    have hreplies := h [(0, r, .set []), (ttl, r', .get)] (by simp [hr, hr'])
    rw [HttpCache.entryReplies_set_get ttl hkey, RequestCache.replies_set_get ttl hstraddles.not_same]
      at hreplies
    simp at hreplies
  · have hkeys : Separates sha256 R := by
      intro r hr r' hr'
      rw [makeKey_eq_iff hsha256]
      refine ⟨?_, .inl⟩
      rintro (hsame | hstraddles | hstraddles)
      · exact hsame
      · exact absurd hstraddles (h r hr r' hr')
      · exact absurd hstraddles (h r' hr' r hr)
    have hempty : (HttpCache.create ttl).Holds sha256 R .empty := fun _ _ => rfl
    exact hempty.replies_eq hkeys hops

/-- A request straddles only one with a longer source. -/
theorem HttpRequest.Straddles.length_lt {r r' : HttpRequest} (h : r.Straddles r') :
    r.source.length < r'.source.length := by
  rcases h.part with ⟨middle, hsource, -⟩ | ⟨hsource, -⟩
  · rw [hsource, List.length_append, List.length_append, List.length_cons]
    omega
  · rw [hsource, List.length_append, List.length_cons]
    omega

/-- A request of the source `web` for a page. -/
def pageRequest (page : String) : HttpRequest :=
  ⟨"web".toList, "/items".toList, some (OrderedDict.ofEntries [("page".toList, page.toList)]), none⟩

/-- What is stored for one page is neither returned nor removed for the other. -/
def pageCalls : List (ℚ × HttpRequest × EntryOp) :=
  [(0, pageRequest "1", .set "eu".toList), (1, pageRequest "2", .get),
    (2, pageRequest "2", .invalidate), (3, pageRequest "1", .get)]

/-- Two pages of one list have different keys, and one does not answer for the other. -/
theorem httpCache_separates_pages :
    makeKey (id : Bytes → Bytes) (pageRequest "1") ≠ makeKey id (pageRequest "2") ∧
      HttpCache.entryReplies (id : Bytes → Bytes) 60 pageCalls =
        [.nothing, .body none, .nothing, .body (some "eu".toList)] := by
  have hstraddles : ∀ page page' : String, ¬ (pageRequest page).Straddles (pageRequest page') :=
    fun page page' h => absurd h.length_lt (lt_irrefl _)
  obtain ⟨hkeys, hruns⟩ := httpCache_separates_iff (H := Bytes) Function.injective_id
  have hops : ∀ op ∈ pageCalls, op.2.1 ∈ Set.range pageRequest := by
    simp [pageCalls]
  have hreplies := (hruns 60 (Set.range pageRequest)).mpr
    (by rintro _ ⟨page, rfl⟩ _ ⟨page', rfl⟩; exact hstraddles page page') pageCalls hops
  refine ⟨fun hkey => ?_, hreplies.trans (by decide +kernel)⟩
  have hsame := ((hkeys (pageRequest "1") (pageRequest "2")).mpr
    (not_or.mpr ⟨hstraddles "1" "2", hstraddles "2" "1"⟩)).mp hkey
  exact absurd hsame (by decide)

/-- A request of the source `web`. -/
def barRequest : HttpRequest := ⟨"web".toList, "eu||/items".toList, none, none⟩

/-- A request of the source `web||eu`. -/
def barSource : HttpRequest := ⟨"web||eu".toList, "/items".toList, none, none⟩

/-- A bar in the source or in the address gives two requests one key. -/
theorem not_httpCache_separates_bars :
    ¬ barRequest.Same barSource ∧
      (∀ (H : Type) (sha256 : Bytes → H), makeKey sha256 barRequest = makeKey sha256 barSource) ∧
      HttpCache.entryReplies (id : Bytes → Bytes) 60
          [(0, barRequest, .set "eu".toList), (1, barSource, .get), (2, barSource, .invalidate),
            (3, barRequest, .get)] =
        [.nothing, .body (some "eu".toList), .nothing, .body none] ∧
      RequestCache.empty.replies 60
          [(0, barRequest, .set "eu".toList), (1, barSource, .get), (2, barSource, .invalidate),
            (3, barRequest, .get)] =
        [.nothing, .body none, .nothing, .body (some "eu".toList)] := by
  refine ⟨by decide, fun H sha256 => congrArg sha256 (congrArg utf8 (by decide)), ?_, ?_⟩ <;>
    decide +kernel

end AgoraEtl
