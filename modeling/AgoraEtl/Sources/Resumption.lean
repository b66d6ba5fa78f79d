import Mathlib.Tactic.Common

/-!
# Streams that are resumed at a cursor

A run of a stream yields items, and after each item it reports a cursor. `Resumable` says that the
cursor marks the place in the stream: a run that starts at it yields what comes after the item.
`resumed` is what is seen of a sequence of runs, each stopped after a number of items and followed
by a run at the last cursor.
-/

namespace Resumption

variable {α κ : Type*}

/-- After any item, a run from the reported cursor yields the rest of the run. -/
def Resumable (run : κ → List (α × κ)) : Prop :=
  ∀ k front x c rest, run k = front ++ (x, c) :: rest → run c = rest

/-- The last reported cursor, or the cursor the run started from. -/
def cursorAfter (k : κ) (items : List (α × κ)) : κ := (items.getLast?.map Prod.snd).getD k

@[simp]
theorem cursorAfter_nil (k : κ) : cursorAfter k ([] : List (α × κ)) = k := rfl

/-- The items of runs that are stopped after the given numbers of items, and of a last run that is
not stopped. -/
def resumed (run : κ → List (α × κ)) : κ → List ℕ → List (α × κ)
  | k, [] => run k
  | k, stop :: stops =>
    (run k).take stop ++ resumed run (cursorAfter k ((run k).take stop)) stops

@[simp]
theorem resumed_nil (run : κ → List (α × κ)) (k : κ) : resumed run k [] = run k := rfl

theorem resumed_cons (run : κ → List (α × κ)) (k : κ) (stop : ℕ) (stops : List ℕ) :
    resumed run k (stop :: stops) =
      (run k).take stop ++ resumed run (cursorAfter k ((run k).take stop)) stops := rfl

/-- Of a stream whose runs all start over, the items before each stop are seen again. -/
theorem map_resumed_of_restarting {run : κ → List (α × κ)} {items : List α}
    (hrun : ∀ k, (run k).map Prod.fst = items) (k : κ) (stops : List ℕ) :
    (resumed run k stops).map Prod.fst = (stops.flatMap fun stop => items.take stop) ++ items := by
  induction stops generalizing k with
  | nil => exact hrun k
  | cons stop stops ih =>
    rw [resumed_cons, List.map_append, ih, List.map_take, hrun, List.flatMap_cons,
      List.append_assoc]

end Resumption
