import Mathlib.Data.Option.Basic
import Mathlib.Tactic.Common

/-!
# Chains of stateful stages

A stage takes a state and an item and either fails or returns a new state and perhaps an item.  A
list of items can be sent through a chain of stages item by item, each item through all stages, or
stage by stage, all items through each stage.  Every stage sees the same items in the same order in
both cases, so the two agree: `itemMajor_eq_stageMajor`.
-/

namespace Effect

variable {σ α : Type}

/-- A stage: it fails, drops the item, or passes an item on. -/
abbrev Stage (σ α : Type) : Type := σ → α → Option (σ × Option α)

/-- A stage with its current state. -/
abbrev StatefulStage (σ α : Type) : Type := Stage σ α × σ

/-- Send one item through all stages. -/
def through : List (StatefulStage σ α) → α → Option (List (StatefulStage σ α) × Option α)
  | [], a => some ([], some a)
  | (f, s) :: stages, a =>
    match f s a with
    | none => none
    | some (s', none) => some ((f, s') :: stages, none)
    | some (s', some b) => (through stages b).map fun r => ((f, s') :: r.1, r.2)

/-- Send the items through the chain one after the other; an item that is gone stays gone. -/
def itemMajor (stages : List (StatefulStage σ α)) :
    List (Option α) → Option (List (StatefulStage σ α) × List (Option α))
  | [] => some (stages, [])
  | none :: items => (itemMajor stages items).map fun r => (r.1, none :: r.2)
  | some a :: items =>
    (through stages a).bind fun r =>
      (itemMajor r.1 items).map fun r' => (r'.1, r.2 :: r'.2)

/-- Send all items through one stage. -/
def applyStage (f : Stage σ α) : σ → List (Option α) → Option (σ × List (Option α))
  | s, [] => some (s, [])
  | s, none :: items => (applyStage f s items).map fun r => (r.1, none :: r.2)
  | s, some a :: items =>
    (f s a).bind fun r => (applyStage f r.1 items).map fun r' => (r'.1, r.2 :: r'.2)

/-- Send all items through one stage after the other. -/
def stageMajor : List (StatefulStage σ α) → List (Option α) →
    Option (List (StatefulStage σ α) × List (Option α))
  | [], items => some ([], items)
  | (f, s) :: stages, items =>
    (applyStage f s items).bind fun r =>
      (stageMajor stages r.2).map fun r' => ((f, r.1) :: r'.1, r'.2)

theorem itemMajor_nil (items : List (Option α)) :
    itemMajor ([] : List (StatefulStage σ α)) items = some ([], items) := by
  induction items with
  | nil => rfl
  | cons item items ih => cases item <;> simp [itemMajor, through, ih]

/-- The first stage of a chain can be applied to all items before the others. -/
theorem itemMajor_cons (f : Stage σ α) (s : σ) (stages : List (StatefulStage σ α))
    (items : List (Option α)) :
    itemMajor ((f, s) :: stages) items =
      (applyStage f s items).bind fun r =>
        (itemMajor stages r.2).map fun r' => ((f, r.1) :: r'.1, r'.2) := by
  induction items generalizing s stages with
  | nil => rfl
  | cons item items ih =>
    cases item with
    | none =>
      simp only [itemMajor, applyStage, ih]
      cases applyStage f s items with
      | none => rfl
      | some r => cases hrest : itemMajor stages r.2 <;> simp [itemMajor, hrest]
    | some a =>
      simp only [itemMajor, applyStage, through]
      cases hfa : f s a with
      | none => rfl
      | some r =>
        obtain ⟨s', o⟩ := r
        cases o with
        | none =>
          -- the item is dropped here, so the other stages do not see it
          have hrest := ih s' stages
          cases happ : applyStage f s' items with
          | none => simp [hrest, happ]
          | some r => cases hm : itemMajor stages r.2 <;> simp [itemMajor, hrest, happ, hm]
        | some b =>
          -- the other stages see this item first, in both orders
          cases hb : through stages b with
          | none => cases happ : applyStage f s' items <;> simp [itemMajor, hb, happ]
          | some r =>
            obtain ⟨stages', o'⟩ := r
            have hrest := ih s' stages'
            cases happ : applyStage f s' items with
            | none => simp [hb, hrest, happ]
            | some r => cases hm : itemMajor stages' r.2 <;> simp [itemMajor, hb, hrest, happ, hm]

/-- Item by item and stage by stage are the same. -/
theorem itemMajor_eq_stageMajor (stages : List (StatefulStage σ α)) (items : List (Option α)) :
    itemMajor stages items = stageMajor stages items := by
  induction stages generalizing items with
  | nil => exact itemMajor_nil items
  | cons stage stages ih =>
    obtain ⟨f, s⟩ := stage
    simp only [itemMajor_cons, stageMajor, ih]

end Effect
