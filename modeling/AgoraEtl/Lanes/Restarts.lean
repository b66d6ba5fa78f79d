import AgoraEtl.Lanes.LinearDirect
import AgoraEtl.Sources.Resumption

/-!
# A pipeline that is restarted

A run may stop after any of its steps, and the next run resumes the source at a checkpoint from the
store.  The store may answer a save with an exception and keep it all the same, or lose it: the next run
may read any checkpoint that was handed to it, or none.

With unbatched writes the linear lane resumes past no record that was not handled: whatever checkpoint a
run resumes at, the records before it were handled in an earlier run.  When a run returns, every record
has been handled in one of the runs.  A failed record that the policies let pass uncaptured counts as
handled, so that it is the policies, not the restarts, that lose it (`Handling.skipped`).
-/

namespace AgoraEtl

open Effect

variable {α χ : Type}

/-- A source that resumes after the record whose checkpoint it is given, or at its beginning. -/
structure ResumableSource (α χ : Type) where
  stream : Option χ → List (SourceRecord α χ)
  resumes : Resumption.Resumable fun start => (stream start).map fun r => (r, r.checkpoint)
  checkpointed : ∀ start, ∀ r ∈ stream start, r.checkpoint.isSome = true

theorem ResumableSource.stream_after (source : ResumableSource α χ) {start : Option χ}
    {front rest : List (SourceRecord α χ)} {r : SourceRecord α χ}
    (h : source.stream start = front ++ r :: rest) : source.stream r.checkpoint = rest := by
  have hrest := source.resumes start (front.map fun r => (r, r.checkpoint)) r r.checkpoint
    (rest.map fun r => (r, r.checkpoint)) (by simp [h])
  exact List.map_injective_iff.mpr (fun _ _ he => (Prod.ext_iff.mp he).1) hrest

section OfList

variable [DecidableEq χ]

/-- The records after the one with the checkpoint. -/
def recordsAfter (value : χ) : List (SourceRecord α χ) → List (SourceRecord α χ)
  | [] => []
  | r :: rest => if r.checkpoint = some value then rest else recordsAfter value rest

theorem recordsAfter_suffix (value : χ) (records : List (SourceRecord α χ)) :
    recordsAfter value records <:+ records := by
  induction records with
  | nil => exact List.suffix_rfl
  | cons r rest ih =>
    rw [recordsAfter]
    split
    · exact List.suffix_cons r rest
    · exact ih.trans (List.suffix_cons r rest)

theorem recordsAfter_append {value : χ} {front rest : List (SourceRecord α χ)} {r : SourceRecord α χ}
    (hr : r.checkpoint = some value) (hfront : some value ∉ front.map SourceRecord.checkpoint) :
    recordsAfter value (front ++ r :: rest) = rest := by
  induction front with
  | nil => exact if_pos hr
  | cons first front ih =>
    rw [List.map_cons, List.mem_cons, not_or] at hfront
    rw [List.cons_append, recordsAfter, if_neg (Ne.symm hfront.1)]
    exact ih hfront.2

/-- The records of a list, each of which has a checkpoint of its own. -/
def ResumableSource.ofList (records : List (SourceRecord α χ))
    (hsome : ∀ r ∈ records, r.checkpoint.isSome = true)
    (hnodup : (records.map SourceRecord.checkpoint).Nodup) : ResumableSource α χ where
  stream start := start.elim records fun value => recordsAfter value records
  resumes := by
    intro start front r checkpoint rest h
    have hsuffix : start.elim records (fun value => recordsAfter value records) <:+ records := by
      cases start with
      | none => exact List.suffix_rfl
      | some value => exact recordsAfter_suffix value records
    obtain ⟨front', rest', hsplit, rfl, hcons⟩ := List.map_eq_append_iff.mp h
    obtain ⟨r', rest', rfl, hr, rfl⟩ := List.map_eq_cons_iff.mp hcons
    obtain ⟨rfl, hcheckpoint⟩ := Prod.mk.inj hr
    obtain ⟨before, hbefore⟩ := hsuffix
    rw [hsplit, ← List.append_assoc] at hbefore
    have hsome' := hsome r' (by rw [← hbefore]; simp)
    obtain ⟨value, hvalue⟩ := Option.isSome_iff_exists.mp hsome'
    rw [← hbefore, List.map_append, List.map_cons, List.nodup_append] at hnodup
    have hnot : some value ∉ (before ++ front').map SourceRecord.checkpoint := fun hmem =>
      hnodup.2.2 _ hmem _ List.mem_cons_self hvalue.symm
    rw [← hcheckpoint, hvalue]
    change (recordsAfter value records).map _ = _
    rw [← hbefore, recordsAfter_append hvalue hnot]
  checkpointed start r hr := by
    refine hsome r ?_
    cases start with
    | none => exact hr
    | some value => exact (recordsAfter_suffix value records).subset hr

end OfList

/-- The checkpoint is one that a run with this history may resume at. -/
def ResumesAt (history : List (RunTrace α χ)) (start : Option χ) : Prop :=
  start = none ∨ ∃ t ∈ history, ∃ value ∈ saves t, start = some value

/-- The record was handled in one of the runs. -/
def SettledIn (history : List (RunTrace α χ)) (r : SourceRecord α χ) : Prop :=
  ∃ t ∈ history, IsSettled t r.checkpoint

section History

variable {history history' : List (RunTrace α χ)} {r : SourceRecord α χ} {start : Option χ}

theorem SettledIn.mono (h : SettledIn history r) (hsub : history ⊆ history') : SettledIn history' r := by
  obtain ⟨t, ht, hsettled⟩ := h
  exact ⟨t, hsub ht, hsettled⟩

theorem resumesAt_concat {t : RunTrace α χ} (h : ResumesAt (history ++ [t]) start) :
    ResumesAt history start ∨ ∃ value ∈ saves t, start = some value := by
  rcases h with hnone | ⟨t', ht', value, hvalue, hstart⟩
  · exact .inl (.inl hnone)
  · rcases List.mem_append.mp ht' with ht' | ht'
    · exact .inl (.inr ⟨t', ht', value, hvalue, hstart⟩)
    · rw [List.mem_singleton.mp ht'] at hvalue
      exact .inr ⟨value, hvalue, hstart⟩

theorem exists_save_of_mem_saves {t : RunTrace α χ} {value : χ} (h : value ∈ saves t) :
    ∃ t₁ key checkpoint answer t₂,
      t = t₁ ++ .called (.await (.saveCheckpoint key checkpoint)) answer :: t₂ ∧
        checkpoint.value = value := by
  obtain ⟨e, he, hvalue⟩ := List.mem_filterMap.mp h
  obtain ⟨t₁, t₂, rfl⟩ := List.append_of_mem he
  split at hvalue
  · rename_i key checkpoint answer
    exact ⟨t₁, key, checkpoint, answer, t₂, rfl, Option.some.inj hvalue⟩
  · cases hvalue

end History

variable [DecidableEq α] [DecidableEq χ]

/-- The histories of a pipeline over one source: every run has the configuration it is given, the
environment it meets, and stops after some of its turns. -/
inductive Restarted (source : ResumableSource α χ) : List (RunTrace α χ) → Prop where
  | first : Restarted source []
  | again {history : List (RunTrace α χ)} (h : Restarted source history) {start : Option χ}
      (hstart : ResumesAt history start) (c : ExecutionCoordinator α χ) (hbatch : c.writerBatchSize = 1)
      (hstore : c.delivery.checkpointStore = true) (fuel : ℕ) (environment : Environment α χ)
      (lastSaved : Option χ) (turns : List Turn) :
      Restarted source (history ++
        [(c.linearRun fuel (source.stream start) environment lastSaved turns).world.trace])

namespace ExecutionCoordinator

variable (c : ExecutionCoordinator α χ) {source : ResumableSource α χ} {start : Option χ}

/-- A run that resumes at one of its checkpoints finds the records between the two handled. -/
theorem settled_or_resumed (hbatch : c.writerBatchSize = 1)
    (hstore : c.delivery.checkpointStore = true) (fuel : ℕ) (environment : Environment α χ)
    (lastSaved : Option χ) (turns : List Turn) {value : χ}
    (hvalue : value ∈
      saves (c.linearRun fuel (source.stream start) environment lastSaved turns).world.trace)
    {r : SourceRecord α χ} (hr : r ∈ source.stream start) :
    IsSettled (c.linearRun fuel (source.stream start) environment lastSaved turns).world.trace
      r.checkpoint ∨ r ∈ source.stream (some value) := by
  obtain ⟨t₁, key, checkpoint, answer, t₂, ht, rfl⟩ := exists_save_of_mem_saves hvalue
  obtain ⟨-, before, last, after, hconsumed, hlast, hall⟩ :=
    along_iff.mp (c.linearRun_direct hbatch fuel environment lastSaved turns).1 t₁ _ t₂ ht _ _ _ rfl
  have horder := c.along_takenInOrder fuel (source.stream start) environment lastSaved turns
  rw [ht, along_append] at horder
  obtain ⟨more, hmore⟩ := consumedRecords_prefix horder.1
  have hsplit : source.stream start = before ++ last :: (after ++ more) := by
    rw [← hmore, ← List.cons_append, ← List.append_assoc, ← hconsumed]
    rfl
  have hresumed : source.stream (some checkpoint.value) = after ++ more :=
    hlast ▸ source.stream_after hsplit
  rw [hsplit, List.append_cons, List.mem_append] at hr
  rcases hr with hr | hr
  · refine .inl ((hall r hr hstore (source.checkpointed start r ?_)).mono ?_)
    · rw [hsplit, List.append_cons]
      exact List.mem_append_left _ hr
    · rw [ht]
      exact List.prefix_append _ _
  · exact .inr (hresumed ▸ hr)

end ExecutionCoordinator

/-- Whatever checkpoint a run may resume at, every record before it has been handled. -/
theorem Restarted.settled_or_resumed {source : ResumableSource α χ} {history : List (RunTrace α χ)}
    (h : Restarted source history) {start : Option χ} (hstart : ResumesAt history start) :
    ∀ r ∈ source.stream none, SettledIn history r ∨ r ∈ source.stream start := by
  induction h generalizing start with
  | first =>
    intro r hr
    obtain rfl : start = none := hstart.resolve_right (by simp)
    exact .inr hr
  | again _ hresumed c hbatch hstore fuel environment lastSaved turns ih =>
    intro r hr
    rcases resumesAt_concat hstart with hearlier | ⟨value, hvalue, rfl⟩
    · exact (ih hearlier r hr).imp_left fun hs => hs.mono (List.subset_append_left _ _)
    · rcases ih hresumed r hr with hs | hs
      · exact .inl (hs.mono (List.subset_append_left _ _))
      · refine (c.settled_or_resumed hbatch hstore fuel environment lastSaved turns hvalue hs).imp_left
          fun hsettled => ⟨_, List.mem_append_right _ (List.mem_singleton_self _), hsettled⟩

/-- A linear lane with unbatched writes is stopped and restarted any number of times: where a run
resumes, the records before have been handled, and once a run returns all records have. -/
theorem restarted_handles_all {source : ResumableSource α χ} {history : List (RunTrace α χ)}
    (h : Restarted source history) {start : Option χ} (hstart : ResumesAt history start)
    (c : ExecutionCoordinator α χ) (hbatch : c.writerBatchSize = 1)
    (hstore : c.delivery.checkpointStore = true) (fuel : ℕ) (environment : Environment α χ)
    (lastSaved : Option χ) (turns : List Turn) :
    (∀ r ∈ source.stream none, SettledIn history r ∨ r ∈ source.stream start) ∧
      ((c.linearRun fuel (source.stream start) environment lastSaved turns).main =
          .ended (.returned ()) →
        ∀ r ∈ source.stream none, SettledIn (history ++
          [(c.linearRun fuel (source.stream start) environment lastSaved turns).world.trace]) r) := by
  have hresumes := h.settled_or_resumed hstart
  refine ⟨hresumes, fun hreturned r hr => ?_⟩
  rcases hresumes r hr with hs | hs
  · exact hs.mono (List.subset_append_left _ _)
  · have hsettled := (c.linearRun_direct hbatch fuel environment lastSaved turns).2 hreturned r hs
      hstore (source.checkpointed start r hs)
    exact ⟨_, List.mem_append_right _ (List.mem_singleton_self _), hsettled⟩

/-! ## A pipeline that is stopped between two records -/

/-- Two records, resumed after one of them. -/
def pairSource : ResumableSource ℕ ℕ := .ofList pairRecords (by decide) (by decide)

/-- A lane that writes every record at once. -/
def singleLane : ExecutionCoordinator ℕ ℕ := .standard (.standard true) []

/-- The trace of a run that stops after the first checkpoint. -/
def firstRun : RunTrace ℕ ℕ :=
  (singleLane.linearRun 4 pairRecords undisturbed none (List.replicate 4 .main)).world.trace

/-- The first run stops after the first checkpoint, and the second one returns. -/
theorem restarted_handles_all_pair :
    Restarted pairSource [firstRun] ∧ ∀ r ∈ pairRecords, SettledIn [firstRun,
      (singleLane.linearRun 4 [⟨2, some 20, []⟩] undisturbed none (List.replicate 9 .main)).world.trace]
        r := by
  have hfirst : Restarted pairSource [firstRun] :=
    .again .first (.inl rfl) singleLane rfl rfl 4 undisturbed none (List.replicate 4 .main)
  have hstart : ResumesAt [firstRun] (some 10) :=
    .inr ⟨firstRun, List.mem_singleton_self _, 10, by decide +kernel, rfl⟩
  exact ⟨hfirst, (restarted_handles_all hfirst hstart singleLane rfl rfl 4 undisturbed none
    (List.replicate 9 .main)).2 rfl⟩

end AgoraEtl
