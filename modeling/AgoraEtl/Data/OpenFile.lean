import Mathlib.Data.List.Basic

/-!
# Files that are open for writing

A file is opened to append, in which case every write goes to its end, or to write, in which case it is
emptied and the writes go to the handle's own position.  A position beyond the end of a file that was
emptied meanwhile leaves zeros.
-/

abbrev Bytes : Type := List UInt8

/-- The bytes of a text. -/
def utf8 (text : List Char) : Bytes := text.flatMap String.utf8EncodeChar

@[simp]
theorem utf8_nil : utf8 [] = [] := rfl

@[simp]
theorem utf8_append (text text' : List Char) : utf8 (text ++ text') = utf8 text ++ utf8 text' :=
  List.flatMap_append

theorem utf8_injective : Function.Injective utf8 := by
  intro text text' h
  refine String.ofList_injective (String.toByteArray_inj.mp ?_)
  exact congrArg List.toByteArray h

/-- A file that is open: whether it was opened to append, and the position of the next write. -/
structure OpenFile where
  appends : Bool
  offset : ℕ
  deriving DecidableEq

namespace OpenFile

/-- Open a file, which may not exist; its content then, and the handle. -/
def create (appends : Bool) (content : Option Bytes) : Bytes × OpenFile :=
  if appends then (content.getD [], ⟨true, 0⟩) else ([], ⟨false, 0⟩)

/-- The content after a write, and the handle. -/
def write (file : OpenFile) (content data : Bytes) : Bytes × OpenFile :=
  if file.appends then (content ++ data, file)
  else (content.take file.offset ++ List.replicate (file.offset - content.length) 0 ++ data ++
      content.drop (file.offset + data.length),
    { file with offset := file.offset + data.length })

/-- The next write adds to the content. -/
def AtEnd (file : OpenFile) (content : Bytes) : Prop :=
  file.appends = true ∨ file.offset = content.length

theorem atEnd_create (appends : Bool) (content : Option Bytes) :
    (create appends content).2.AtEnd (create appends content).1 := by
  cases appends with
  | false => exact Or.inr rfl
  | true => exact Or.inl rfl

@[simp]
theorem create_fst (appends : Bool) (content : Option Bytes) :
    (create appends content).1 = if appends then content.getD [] else [] := by
  cases appends <;> rfl

variable {file : OpenFile} {content : Bytes}

theorem write_fst (h : file.AtEnd content) (data : Bytes) :
    (file.write content data).1 = content ++ data := by
  unfold write
  split
  next => rfl
  next happends =>
    have hoffset : file.offset = content.length := h.resolve_left happends
    have hdrop : content.drop (content.length + data.length) = [] :=
      List.drop_eq_nil_of_le (Nat.le_add_right _ _)
    simp [hoffset, hdrop]

theorem atEnd_write (h : file.AtEnd content) (data : Bytes) :
    (file.write content data).2.AtEnd (file.write content data).1 := by
  rw [write_fst h]
  unfold write
  split
  next happends => exact Or.inl happends
  next happends =>
    right
    rw [List.length_append, ← h.resolve_left happends]

/-- A write through a position that is not at the end loses what stands there. -/
example : (OpenFile.mk false 1).write [1, 2, 3] [7] = ([1, 7, 3], ⟨false, 2⟩) := by decide

end OpenFile
