import Mathlib.Data.List.Induction
import Mathlib.Tactic.Common

/-!
# The last of the writes

Values are written to places one after the other.  A map that keeps the places under keys has, under the
key of a place, what was written last to any place of that key (`KeyValueMap.get_writeAll`).  This is what
was written last to the place itself unless another place of the key was written later
(`lastWrite_eq_iff`).
-/

variable {ι ν : Type*}

/-- The value of the last write to a place with a property. -/
def lastWrite (p : ι → Prop) [DecidablePred p] (writes : List (ι × ν)) : Option ν :=
  writes.foldl (fun last write => if p write.1 then some write.2 else last) none

section LastWrite

variable {p q : ι → Prop} [DecidablePred p] [DecidablePred q] {writes later : List (ι × ν)}

theorem lastWrite_concat (write : ι × ν) :
    lastWrite p (writes ++ [write]) = if p write.1 then some write.2 else lastWrite p writes := by
  unfold lastWrite
  rw [List.foldl_append, List.foldl_cons, List.foldl_nil]

theorem lastWrite_congr (h : ∀ place, p place ↔ q place) (writes : List (ι × ν)) :
    lastWrite p writes = lastWrite q writes := by
  unfold lastWrite
  congr 1
  funext last write
  exact if_congr (h write.1) rfl rfl

/-- Writes to other places change nothing. -/
theorem lastWrite_append (h : ∀ write ∈ later, ¬ p write.1) :
    lastWrite p (writes ++ later) = lastWrite p writes := by
  induction later using List.reverseRecOn with
  | nil => rw [List.append_nil]
  | append_singleton later write ih =>
    rw [← List.append_assoc, lastWrite_concat, if_neg (h write (by simp))]
    exact ih fun other hmem => h other (List.mem_append_left _ hmem)

theorem lastWrite_append_cons {write : ι × ν} (hwrite : p write.1)
    (h : ∀ write ∈ later, ¬ p write.1) :
    lastWrite p (writes ++ write :: later) = some write.2 := by
  rw [List.append_cons, lastWrite_append h, lastWrite_concat, if_pos hwrite]

/-- Either no write has the property or one is the last that has it. -/
theorem lastWrite_cases (p : ι → Prop) [DecidablePred p] (writes : List (ι × ν)) :
    (∀ write ∈ writes, ¬ p write.1) ∨
      ∃ front write back, writes = front ++ write :: back ∧ p write.1 ∧
        ∀ later ∈ back, ¬ p later.1 := by
  induction writes using List.reverseRecOn with
  | nil => exact .inl fun write hmem => absurd hmem List.not_mem_nil
  | append_singleton writes write ih =>
    by_cases hwrite : p write.1
    · exact .inr ⟨writes, write, [], rfl, hwrite, fun later hmem => absurd hmem List.not_mem_nil⟩
    · rcases ih with hnone | ⟨front, last, back, rfl, hlast, hback⟩
      · refine .inl fun other hmem => ?_
        rcases List.mem_append.mp hmem with hfront | hnew
        · exact hnone other hfront
        · exact List.mem_singleton.mp hnew ▸ hwrite
      · refine .inr ⟨front, last, back ++ [write], by simp, hlast, fun later hmem => ?_⟩
        rcases List.mem_append.mp hmem with hfront | hnew
        · exact hback later hfront
        · exact List.mem_singleton.mp hnew ▸ hwrite

/-- The last write of a larger set of places is that of a smaller one, unless it goes to a place that is
not in the smaller one and writes something else than was written last there. -/
theorem lastWrite_eq_iff (hsub : ∀ place, q place → p place) :
    lastWrite p writes = lastWrite q writes ↔
      ∀ front write back, writes = front ++ write :: back → p write.1 → ¬ q write.1 →
        (∀ later ∈ back, ¬ p later.1) → lastWrite q front = some write.2 := by
  constructor
  · rintro heq front write back rfl hp hq hback
    have hbefore : lastWrite q (front ++ write :: back) = lastWrite q front :=
      lastWrite_append fun other hmem => by
        rcases List.mem_cons.mp hmem with rfl | hlater
        · exact hq
        · exact fun hother => hback other hlater (hsub other.1 hother)
    rw [← hbefore, ← heq, lastWrite_append_cons hp hback]
  · intro h
    rcases lastWrite_cases p writes with hnone | ⟨front, write, back, rfl, hp, hback⟩
    · have hempty : ∀ (r : ι → Prop) [DecidablePred r], (∀ write ∈ writes, ¬ r write.1) →
          lastWrite r writes = none := fun r _ hr =>
        (lastWrite_append hr : lastWrite r ([] ++ writes) = lastWrite r [])
      rw [hempty p hnone, hempty q fun write hmem hq => hnone write hmem (hsub write.1 hq)]
    · have hback' : ∀ later ∈ back, ¬ q later.1 :=
        fun later hmem hlater => hback later hmem (hsub later.1 hlater)
      rw [lastWrite_append_cons hp hback]
      by_cases hq : q write.1
      · rw [lastWrite_append_cons hq hback']
      · rw [List.append_cons, lastWrite_append hback', lastWrite_concat, if_neg hq]
        exact (h front write back rfl hp hq hback).symm

end LastWrite

/-- A map that finds under a key what was set under it last. -/
structure KeyValueMap (β κ ν : Type*) [DecidableEq κ] where
  empty : β
  get : β → κ → Option ν
  set : β → κ → ν → β
  get_empty (key : κ) : get empty key = none
  get_set (b : β) (key : κ) (value : ν) (key' : κ) :
    get (set b key value) key' = if key' = key then some value else get b key'

namespace KeyValueMap

variable {β κ μ : Type*} [DecidableEq κ] (map : KeyValueMap β κ μ)

/-- The map after the writes, each encoded under the key of its place. -/
def writeAll (key : ι → κ) (encode : ν → μ) (writes : List (ι × ν)) : β :=
  writes.foldl (fun b write => map.set b (key write.1) (encode write.2)) map.empty

/-- What is found under the key of a place is the last write to a place of that key. -/
theorem get_writeAll (key : ι → κ) (encode : ν → μ) (writes : List (ι × ν)) (place : ι) :
    map.get (map.writeAll key encode writes) (key place) =
      (lastWrite (fun other => key place = key other) writes).map encode := by
  induction writes using List.reverseRecOn with
  | nil => exact map.get_empty (key place)
  | append_singleton writes write ih =>
    have hstep : map.writeAll key encode (writes ++ [write]) =
        map.set (map.writeAll key encode writes) (key write.1) (encode write.2) := by
      unfold writeAll
      rw [List.foldl_append, List.foldl_cons, List.foldl_nil]
    rw [hstep, map.get_set, lastWrite_concat, ih]
    split <;> rfl

end KeyValueMap
