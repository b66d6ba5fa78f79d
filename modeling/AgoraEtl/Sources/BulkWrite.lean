import AgoraEtl.Sources.HttpCache

/-!
# Blocks of the HTTP cache

In a `bulk_write` block no operation commits; the block commits when it is left normally and rolls back
when it is left by an `Exception`.  Blocks can be nested, but there is one flag for all of them, which
the block that is left first clears, and other exceptions leave the changes in the open transaction.

A run with blocks is compared with a store in which the outermost block is one transaction
(`TransactionState`).  They agree as long as every block that is left is the outermost one, and is not
left by an exception outside of `Exception` while it has changes (`run_agrees`).
-/

namespace AgoraEtl

variable {H : Type}

/-- How a block is left; an exception may be an `Exception` or not, such as `KeyboardInterrupt` and
`asyncio.CancelledError`. -/
inductive BlockExit : Type where
  | normal
  | raised (isException : Bool)
  deriving DecidableEq

/-- What happens in a run: a block is entered or left, or an operation is called. -/
inductive BulkEvent : Type where
  | enter
  | leave (exit : BlockExit)
  | call (now : ℚ) (op : HttpCacheOp)

namespace HttpCache

/-- `bulk_write` up to its `yield`. -/
def enterBulk (c : HttpCache H) : HttpCache H := { c with inBulk := true }

/-- `bulk_write` after its `yield`. -/
def leaveBulk (c : HttpCache H) : BlockExit → HttpCache H
  | .normal => { c.commit with inBulk := false }
  | .raised isException => { if isException then c.rollback else c with inBulk := false }

end HttpCache

/-- The cache and how many blocks are open. -/
structure BlockState (H : Type) : Type where
  cache : HttpCache H
  depth : ℕ

namespace BlockState

variable [DecidableEq H] (sha256 : Bytes → H)

/-- One event; only an open block is left. -/
def step (s : BlockState H) : BulkEvent → Option (BlockState H)
  | .enter => some ⟨s.cache.enterBulk, s.depth + 1⟩
  | .leave exit =>
    match s.depth with
    | 0 => none
    | depth + 1 => some ⟨s.cache.leaveBulk exit, depth⟩
  | .call now op => some ⟨(s.cache.step sha256 now op).2, s.depth⟩

def run (s : BlockState H) : List BulkEvent → Option (BlockState H)
  | [] => some s
  | event :: events => (s.step sha256 event).bind fun s' => run s' events

end BlockState

/-! ### The outermost block as a transaction -/

/-- What an operation leaves in the table. -/
def HttpCacheOp.effect [DecidableEq H] (sha256 : Bytes → H) (ttl : ℤ) (now : ℚ) (op : HttpCacheOp)
    (t : HttpTable H) : HttpTable H :=
  ((⟨ttl, t, t, true⟩ : HttpCache H).step sha256 now op).2.content

/-- The store as it is meant: what is persistent, what is seen, and how many blocks are open. -/
structure TransactionState (H : Type) : Type where
  persistent : HttpTable H
  content : HttpTable H
  depth : ℕ

namespace TransactionState

variable [DecidableEq H] (sha256 : Bytes → H) (ttl : ℤ)

/-- Outside of blocks an operation is a transaction of its own, and the outermost block is one. -/
def step (s : TransactionState H) : BulkEvent → TransactionState H
  | .enter => { s with depth := s.depth + 1 }
  | .leave exit =>
    if s.depth = 1 then
      match exit with
      | .normal => ⟨s.content, s.content, 0⟩
      | .raised _ => ⟨s.persistent, s.persistent, 0⟩
    else { s with depth := s.depth - 1 }
  | .call now op =>
    let content := op.effect sha256 ttl now s.content
    if s.depth = 0 then ⟨content, content, 0⟩ else { s with content := content }

def run (s : TransactionState H) (events : List BulkEvent) : TransactionState H :=
  events.foldl (step sha256 ttl) s

end TransactionState

/-! ### What the operations do to the connection -/

variable [DecidableEq H] (sha256 : Bytes → H)

namespace HttpCache

/-- An operation does nothing, or it changes the table and commits unless it is in a block. -/
theorem step_cases (c : HttpCache H) (now : ℚ) (op : HttpCacheOp) :
    (c.step sha256 now op).2 = c ∨
      ∃ content, (c.step sha256 now op).2 = { c with content := content }.commitIfNotBulk := by
  cases op with
  | entry r op =>
    cases op with
    | get =>
      dsimp only [step, get]
      split
      · exact .inl rfl
      · split
        · exact .inr ⟨_, rfl⟩
        · exact .inl rfl
    | set body => exact .inr ⟨_, rfl⟩
    | invalidate => exact .inr ⟨_, rfl⟩
  | evictSource source olderThanDays => exact .inr ⟨_, rfl⟩
  | purgeExpired => exact .inr ⟨_, rfl⟩

omit [DecidableEq H] in
theorem commitIfNotBulk_bulk {c : HttpCache H} (h : c.inBulk = true) : c.commitIfNotBulk = c :=
  if_pos h

omit [DecidableEq H] in
theorem commitIfNotBulk_single {c : HttpCache H} (h : c.inBulk = false) :
    c.commitIfNotBulk = c.commit := if_neg (Bool.eq_false_iff.mp h)

/-- In a block an operation changes the table only. -/
theorem step_bulk {c : HttpCache H} (h : c.inBulk = true) (now : ℚ) (op : HttpCacheOp) :
    (c.step sha256 now op).2 = { c with content := (c.step sha256 now op).2.content } := by
  rcases c.step_cases sha256 now op with hstep | ⟨content, hstep⟩ <;> rw [hstep]
  rw [commitIfNotBulk_bulk (c := { c with content := content }) h]

/-- Outside of blocks what an operation changed is committed. -/
theorem step_single {c : HttpCache H} (h : c.inBulk = false) (hcommitted : c.committed = c.content)
    (now : ℚ) (op : HttpCacheOp) :
    (c.step sha256 now op).2 =
      { c with committed := (c.step sha256 now op).2.content,
               content := (c.step sha256 now op).2.content } := by
  rcases c.step_cases sha256 now op with hstep | ⟨content, hstep⟩ <;> rw [hstep]
  · exact HttpCache.ext rfl hcommitted rfl rfl
  · rw [commitIfNotBulk_single (c := { c with content := content }) h]
    rfl

/-- What an operation leaves in the table depends on the table only. -/
theorem content_step (c : HttpCache H) (now : ℚ) (op : HttpCacheOp) :
    (c.step sha256 now op).2.content = op.effect sha256 c.ttl now c.content := by
  cases op with
  | entry r op =>
    cases op with
    | get =>
      dsimp only [HttpCacheOp.effect, step, get]
      split
      · rfl
      · split
        · rw [content_commitIfNotBulk, content_commitIfNotBulk]
          rfl
        · rfl
    | set body =>
      dsimp only [HttpCacheOp.effect, step, set]
      rw [content_commitIfNotBulk, content_commitIfNotBulk]
      rfl
    | invalidate =>
      dsimp only [HttpCacheOp.effect, step, invalidate]
      rw [content_commitIfNotBulk, content_commitIfNotBulk]
      rfl
  | evictSource source olderThanDays =>
    dsimp only [HttpCacheOp.effect, step, evictSource]
    rw [content_commitIfNotBulk, content_commitIfNotBulk]
    rfl
  | purgeExpired =>
    dsimp only [HttpCacheOp.effect, step, purgeExpired]
    rw [content_commitIfNotBulk, content_commitIfNotBulk]
    rfl

end HttpCache

/-! ### Runs -/

variable {sha256}

/-- A block that is left is the outermost one, and has changed nothing if it is left by an exception
outside of `Exception`. -/
def BulkEvent.Proper (s : BlockState H) : BulkEvent → Prop
  | .leave exit => s.depth = 1 ∧ (exit = .raised false → s.cache.content = s.cache.committed)
  | _ => True

instance (s : BlockState H) (event : BulkEvent) : Decidable (event.Proper s) := by
  cases event <;> unfold BulkEvent.Proper <;> infer_instance

/-- All events of a run are proper where they happen. -/
def BlockState.AllProper (sha256 : Bytes → H) (s : BlockState H) : List BulkEvent → Prop
  | [] => True
  | event :: events => event.Proper s ∧
      match s.step sha256 event with
      | none => True
      | some s' => AllProper sha256 s' events

instance decidableAllProper (s : BlockState H) :
    (events : List BulkEvent) → Decidable (s.AllProper sha256 events)
  | [] => isTrue trivial
  | event :: events =>
    have : Decidable (match s.step sha256 event with
        | none => True
        | some s' => s'.AllProper sha256 events) :=
      match s.step sha256 event with
      | none => isTrue trivial
      | some s' => decidableAllProper s' events
    inferInstanceAs (Decidable (_ ∧ _))

/-- The cache has committed what is persistent, sees what is seen, and knows whether it is in a block. -/
structure BlockState.Agrees (s : BlockState H) (t : TransactionState H) : Prop where
  committed : s.cache.committed = t.persistent
  content : s.cache.content = t.content
  depth : s.depth = t.depth
  inBulk : s.cache.inBulk = decide (0 < t.depth)
  settled : t.depth = 0 → t.persistent = t.content

namespace BlockState

variable {s s' : BlockState H} {t : TransactionState H}

theorem Agrees.call (h : s.Agrees t) (now : ℚ) (op : HttpCacheOp) :
    (⟨(s.cache.step sha256 now op).2, s.depth⟩ : BlockState H).Agrees
      (t.step sha256 s.cache.ttl (.call now op)) := by
  have hcontent := (s.cache.content_step sha256 now op).trans
    (congrArg (op.effect sha256 s.cache.ttl now) h.content)
  rw [TransactionState.step]
  by_cases hdepth : t.depth = 0
  · have hsingle : s.cache.inBulk = false := by rw [h.inBulk, hdepth]; rfl
    have hstep := HttpCache.step_single sha256 hsingle
      (h.committed.trans ((h.settled hdepth).trans h.content.symm)) now op
    rw [if_pos hdepth]
    rw [hstep, hcontent]
    exact ⟨rfl, rfl, h.depth.trans hdepth, hsingle, fun _ => rfl⟩
  · have hbulk : s.cache.inBulk = true := by
      rw [h.inBulk]
      exact decide_eq_true (Nat.pos_of_ne_zero hdepth)
    have hstep := HttpCache.step_bulk sha256 hbulk now op
    rw [if_neg hdepth]
    rw [hstep, hcontent]
    exact ⟨h.committed, rfl, h.depth, h.inBulk, fun hzero => absurd hzero hdepth⟩

/-- A proper event keeps the agreement. -/
theorem Agrees.step {event : BulkEvent} (h : s.Agrees t) (hproper : event.Proper s)
    (hstep : s.step sha256 event = some s') : s'.Agrees (t.step sha256 s.cache.ttl event) := by
  cases event with
  | enter =>
    obtain rfl := Option.some.inj hstep
    exact ⟨h.committed, h.content, congrArg (· + 1) h.depth, rfl, nofun⟩
  | leave exit =>
    obtain ⟨hdepth, hunchanged⟩ := hproper
    have houter : t.depth = 1 := h.depth.symm.trans hdepth
    rw [BlockState.step, hdepth] at hstep
    obtain rfl := Option.some.inj hstep
    cases exit with
    | normal =>
      have hcommit : t.step sha256 s.cache.ttl (.leave .normal) = ⟨t.content, t.content, 0⟩ :=
        if_pos houter
      rw [hcommit]
      exact ⟨h.content, h.content, rfl, rfl, fun _ => rfl⟩
    | raised isException =>
      have hrollback : t.step sha256 s.cache.ttl (.leave (.raised isException)) =
          ⟨t.persistent, t.persistent, 0⟩ := if_pos houter
      rw [hrollback]
      cases isException with
      | true => exact ⟨h.committed, h.committed, rfl, rfl, fun _ => rfl⟩
      | false => exact ⟨h.committed, (hunchanged rfl).trans h.committed, rfl, rfl, fun _ => rfl⟩
  | call now op =>
    obtain rfl := Option.some.inj hstep
    exact h.call now op

theorem ttl_step {event : BulkEvent} (hstep : s.step sha256 event = some s') :
    s'.cache.ttl = s.cache.ttl := by
  cases event with
  | enter =>
    obtain rfl := Option.some.inj hstep
    rfl
  | leave exit =>
    rw [BlockState.step] at hstep
    split at hstep
    · exact absurd hstep nofun
    · obtain rfl := Option.some.inj hstep
      cases exit with
      | normal => rfl
      | raised isException => cases isException <;> rfl
  | call now op =>
    obtain rfl := Option.some.inj hstep
    rcases s.cache.step_cases sha256 now op with hcall | ⟨content, hcall⟩ <;> dsimp only <;>
      rw [hcall]
    exact HttpCache.ttl_commitIfNotBulk

/-- A run of proper events keeps the agreement. -/
theorem Agrees.run {events : List BulkEvent} (h : s.Agrees t) (hproper : s.AllProper sha256 events)
    (hrun : s.run sha256 events = some s') : s'.Agrees (t.run sha256 s.cache.ttl events) := by
  induction events generalizing s t with
  | nil =>
    obtain rfl := Option.some.inj hrun
    exact h
  | cons event events ih =>
    rw [BlockState.run] at hrun
    obtain ⟨next, hstep, hrest⟩ := Option.bind_eq_some_iff.mp hrun
    have hlater := hproper.2
    rw [hstep] at hlater
    have hnext := ih (h.step hproper.1 hstep) hlater hrest
    rw [ttl_step hstep] at hnext
    exact hnext

end BlockState

/-- The state at the entry of a run: everything is committed and no block is open. -/
def HttpCache.settled (ttl : ℤ) (table : HttpTable H) : BlockState H := ⟨⟨ttl, table, table, false⟩, 0⟩

/-- In a run of proper events, from any content, what is committed and what is seen at every time is what
it should be: the changes of an open block are not committed, those of a block that was left by an
exception are gone, and all others are persistent. -/
theorem bulkWrite_atomic {ttl : ℤ} {table : HttpTable H} {events : List BulkEvent} {s : BlockState H}
    (hrun : (HttpCache.settled ttl table).run sha256 events = some s)
    (hproper : (HttpCache.settled ttl table).AllProper sha256 events) :
    s.cache.committed = (TransactionState.run sha256 ttl ⟨table, table, 0⟩ events).persistent ∧
      s.cache.content = (TransactionState.run sha256 ttl ⟨table, table, 0⟩ events).content := by
  have hstart : (HttpCache.settled ttl table).Agrees ⟨table, table, 0⟩ :=
    ⟨rfl, rfl, rfl, rfl, fun _ => rfl⟩
  have hend := hstart.run hproper hrun
  exact ⟨hend.committed, hend.content⟩

/-- Store a body for a page of one source. -/
def storePage (page : Char) : BulkEvent :=
  .call 0 (.entry ⟨"web".toList, ['/', page], none, none⟩ (.set [page]))

/-- One block that is left normally and one that is left by an exception. -/
def twoBlocks : List BulkEvent :=
  [.enter, storePage 'a', storePage 'b', .leave .normal, .enter, storePage 'c', .leave (.raised true)]

theorem bulkWrite_atomic_twoBlocks :
    ∃ s : BlockState Bytes, (HttpCache.settled 60 .empty).run id twoBlocks = some s ∧
      s.cache.committed =
        (TransactionState.run (id : Bytes → Bytes) 60 ⟨.empty, .empty, 0⟩ twoBlocks).persistent ∧
      s.cache.content =
        (TransactionState.run (id : Bytes → Bytes) 60 ⟨.empty, .empty, 0⟩ twoBlocks).content := by
  obtain ⟨s, hs⟩ := Option.isSome_iff_exists.mp
    (by decide +kernel : ((HttpCache.settled 60 .empty).run (id : Bytes → Bytes) twoBlocks).isSome)
  exact ⟨s, hs, bulkWrite_atomic hs (by decide +kernel)⟩

/-- A block inside of another one, which is left by an exception. -/
def nestedBlocks : List BulkEvent :=
  [.enter, storePage 'a', .enter, storePage 'b', .leave .normal, storePage 'c', .leave (.raised true)]

/-- A block that is interrupted, and an operation after it. -/
def interruptedBlock : List BulkEvent :=
  [.enter, storePage 'a', .leave (.raised false), storePage 'b']

/-- The number of rows that a run has committed, and of those that should be persistent. -/
def committedRows (events : List BulkEvent) : Option ℕ × ℕ :=
  (((HttpCache.settled 60 .empty).run (id : Bytes → Bytes) events).map fun s =>
      s.cache.committed.entries.length,
    (TransactionState.run (id : Bytes → Bytes) 60 ⟨.empty, .empty, 0⟩ events).persistent.entries.length)

theorem not_bulkWrite_atomic :
    committedRows nestedBlocks = (some 3, 0) ∧ committedRows interruptedBlock = (some 2, 1) := by
  decide +kernel

end AgoraEtl
