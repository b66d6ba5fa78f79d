import AgoraEtl.Data.JsonText
import AgoraEtl.Data.OpenFile
import AgoraEtl.State.Backend
import Mathlib.Algebra.Order.Ring.Rat
import Mathlib.Data.Set.Basic
import Mathlib.Data.Char

/-!
# The HTTP response cache

`HttpCache` keeps response bodies in a table under the digest of a text that is joined from the source,
the URL, the parameters and the headers of a request.  What is written for parameters and headers can be
told from the text that comes before it, but a part of a URL can move over the separator to the source
(`makeKey_eq_iff`).

The connection commits every operation on its own, except in a `bulk_write` block.
-/

namespace AgoraEtl

open JsonText

/-- What a response is cached under; `None` stands for no parameters or headers. -/
structure HttpRequest : Type where
  source : Text
  url : Text
  params : Option (OrderedDict Text Text)
  headers : Option (OrderedDict Text Text)
  deriving DecidableEq

/-- A row of `http_cache`, apart from its key. -/
structure HttpRow : Type where
  url : Text
  body : Text
  source : Text
  cachedAt : ℚ
  deriving DecidableEq

/-- The rows of `http_cache` by their primary key. -/
abbrev HttpTable (H : Type) : Type := OrderedDict H HttpRow

/-! ### Keys -/

/-- `_normalize_mapping`. -/
def normalizeMapping (mapping : Option (OrderedDict Text Text)) : Text :=
  let m := mapping.getD .empty
  if m.entries = [] then [] else jsonPairs m.sortedItems

/-- The text that `_make_key` takes the digest of. -/
def HttpRequest.raw (r : HttpRequest) : Text :=
  ['|', '|'].intercalate [r.source, r.url, normalizeMapping r.params, normalizeMapping r.headers]

/-- `_make_key`, for the digest of bytes. -/
def makeKey {H : Type} (sha256 : Bytes → H) (r : HttpRequest) : H := sha256 (utf8 r.raw)

/-! ### The connection and the operations -/

/-- The cache: what its connection has committed, what it sees, and whether it is in a block. -/
@[ext]
structure HttpCache (H : Type) : Type where
  ttl : ℤ
  committed : HttpTable H
  content : HttpTable H
  inBulk : Bool

/-- What is done with the entry of a request. -/
inductive EntryOp : Type where
  | get
  | set (body : Text)
  | invalidate

/-- An operation of the cache. -/
inductive HttpCacheOp : Type where
  | entry (r : HttpRequest) (op : EntryOp)
  | evictSource (source : Text) (olderThanDays : ℤ)
  | purgeExpired

/-- What an operation returns. -/
inductive HttpReply : Type where
  | body (found : Option Text)
  | nothing
  | rowcount (n : ℕ)
  deriving DecidableEq

namespace HttpCache

variable {H : Type} [DecidableEq H]

/-- A new cache. -/
def create (ttl : ℤ) : HttpCache H := ⟨ttl, .empty, .empty, false⟩

/-- `self._raw_conn().commit()`. -/
def commit (c : HttpCache H) : HttpCache H := { c with committed := c.content }

/-- `self._raw_conn().rollback()`. -/
def rollback (c : HttpCache H) : HttpCache H := { c with content := c.committed }

/-- `_commit_if_not_bulk`. -/
def commitIfNotBulk (c : HttpCache H) : HttpCache H := if c.inBulk then c else c.commit

omit [DecidableEq H] in
@[simp]
theorem content_commitIfNotBulk {c : HttpCache H} : c.commitIfNotBulk.content = c.content := by
  unfold commitIfNotBulk commit
  split <;> rfl

omit [DecidableEq H] in
@[simp]
theorem ttl_commitIfNotBulk {c : HttpCache H} : c.commitIfNotBulk.ttl = c.ttl := by
  unfold commitIfNotBulk commit
  split <;> rfl

/-- `DELETE FROM http_cache WHERE ...`, with the condition that keeps a row. -/
def keepRows (c : HttpCache H) (keep : H × HttpRow → Bool) : HttpCache H :=
  { c with content := c.content.filter keep }

/-- `INSERT OR REPLACE INTO http_cache`. -/
def insertOrReplace (c : HttpCache H) (key : H) (row : HttpRow) : HttpCache H :=
  { c with content := (c.content.filterKeys fun k => decide (k ≠ key)).set key row }

variable (sha256 : Bytes → H)

def get (c : HttpCache H) (now : ℚ) (r : HttpRequest) : Option Text × HttpCache H :=
  let key := makeKey sha256 r
  match c.content.get? key with
  | none => (none, c)
  | some row =>
    if now - row.cachedAt > c.ttl then
      (none, (c.keepRows fun row => decide (row.1 ≠ key)).commitIfNotBulk)
    else (some row.body, c)

def set (c : HttpCache H) (now : ℚ) (r : HttpRequest) (body : Text) : HttpCache H :=
  (c.insertOrReplace (makeKey sha256 r) ⟨r.url, body, r.source, now⟩).commitIfNotBulk

def invalidate (c : HttpCache H) (r : HttpRequest) : HttpCache H :=
  let key := makeKey sha256 r
  (c.keepRows fun row => decide (row.1 ≠ key)).commitIfNotBulk

/-- `cur.rowcount` after the rows that are not kept were deleted. -/
def rowcount (c : HttpCache H) (keep : H × HttpRow → Bool) : ℕ :=
  c.content.entries.countP fun row => !keep row

def evictSource (c : HttpCache H) (now : ℚ) (source : Text) (olderThanDays : ℤ) : ℕ × HttpCache H :=
  let keep : H × HttpRow → Bool :=
    if olderThanDays ≠ 0 then
      let cutoff := now - olderThanDays * 86400
      fun row => !(decide (row.2.source = source) && decide (row.2.cachedAt < cutoff))
    else fun row => !decide (row.2.source = source)
  (c.rowcount keep, (c.keepRows keep).commitIfNotBulk)

def purgeExpired (c : HttpCache H) (now : ℚ) : ℕ × HttpCache H :=
  let cutoff := now - c.ttl
  let keep : H × HttpRow → Bool := fun row => !decide (row.2.cachedAt < cutoff)
  (c.rowcount keep, (c.keepRows keep).commitIfNotBulk)

/-- One operation, at the given clock reading. -/
def step (c : HttpCache H) (now : ℚ) : HttpCacheOp → HttpReply × HttpCache H
  | .entry r .get => (.body (c.get sha256 now r).1, (c.get sha256 now r).2)
  | .entry r (.set body) => (.nothing, c.set sha256 now r body)
  | .entry r .invalidate => (.nothing, c.invalidate sha256 r)
  | .evictSource source olderThanDays =>
    (.rowcount (c.evictSource now source olderThanDays).1,
      (c.evictSource now source olderThanDays).2)
  | .purgeExpired => (.rowcount (c.purgeExpired now).1, (c.purgeExpired now).2)

/-- The replies to a sequence of operations, each at its clock reading. -/
def replies (c : HttpCache H) : List (ℚ × HttpCacheOp) → List HttpReply
  | [] => []
  | (now, op) :: ops => (c.step sha256 now op).1 :: replies (c.step sha256 now op).2 ops

end HttpCache

end AgoraEtl
