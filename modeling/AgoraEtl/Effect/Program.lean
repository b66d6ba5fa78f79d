import Mathlib.Data.List.Infix
import Mathlib.Tactic.Common

/-!
# Programs with a state, marks and calls

A program reads and writes a private state, leaves marks in a trace, and calls operations whose
answers it does not control.  It ends by returning a value or by raising an error, and the state
it has reached survives the error: this is the shape of imperative code with exceptions.

A loop that need not end is cut off after a number of rounds given in advance, and the program then
`hang`s.  A statement about every such number is a statement about the loop itself, and a loop that
really terminates is one whose program does not hang once the number is large enough.

Two readings of a program are given here.  `run` executes it to its end against a handler, a
function that answers every call from the trace so far; since the handler sees the whole trace,
quantifying over handlers covers every behaviour of the outside.  `advance` executes it only up to
its next call; the interleaved semantics of two programs over one state is built on it.
-/

namespace Effect

/-- One entry of a trace: a mark left by a program, or a call together with its answer. -/
inductive Event (Op : Type) (Ret : Op → Type) (Mark : Type) : Type where
  | mark (m : Mark)
  | called (o : Op) (r : Ret o)

/-- The events of a run, oldest first. -/
abbrev Trace (Op : Type) (Ret : Op → Type) (Mark : Type) : Type := List (Event Op Ret Mark)

/-- Programs over the operations `Op` with answers `Ret`, the marks `Mark`, the state `σ` and the
errors `ε`, returning a value of type `α`. -/
inductive Program (Op : Type) (Ret : Op → Type) (Mark σ ε : Type) (α : Type) : Type where
  | ret (a : α)
  | raise (e : ε)
  | hang
  | get (k : σ → Program Op Ret Mark σ ε α)
  | put (s : σ) (k : Program Op Ret Mark σ ε α)
  | emit (m : Mark) (k : Program Op Ret Mark σ ε α)
  | call (o : Op) (k : Ret o → Program Op Ret Mark σ ε α)

/-- How a program ends: with a value, with an error, or not at all. -/
inductive Outcome (ε α : Type) : Type where
  | returned (a : α)
  | raised (e : ε)
  | hung

/-- The state a program works on, with the trace of everything done so far. -/
structure World (Op : Type) (Ret : Op → Type) (Mark σ : Type) where
  state : σ
  trace : Trace Op Ret Mark

/-- A handler answers a call from the trace before it. -/
abbrev Handler (Op : Type) (Ret : Op → Type) (Mark : Type) : Type :=
  Trace Op Ret Mark → (o : Op) → Ret o

variable {Op : Type} {Ret : Op → Type} {Mark σ ε α β : Type}

/-- The outcome of an attempt: an error has become a value. -/
def Outcome.caught : Outcome ε α → Outcome ε (Except ε α)
  | .returned a => .returned (.ok a)
  | .raised e => .returned (.error e)
  | .hung => .hung

namespace World

/-- The world after a mark. -/
def mark (w : World Op Ret Mark σ) (m : Mark) : World Op Ret Mark σ :=
  { w with trace := w.trace ++ [.mark m] }

/-- The world after a call and its answer. -/
def called (w : World Op Ret Mark σ) (o : Op) (r : Ret o) : World Op Ret Mark σ :=
  { w with trace := w.trace ++ [.called o r] }

/-- The world after its state was overwritten. -/
def write (w : World Op Ret Mark σ) (s : σ) : World Op Ret Mark σ :=
  { w with state := s }

/-- A mark changes no state. -/
@[simp] theorem mark_state (w : World Op Ret Mark σ) (m : Mark) : (w.mark m).state = w.state := rfl

/-- A mark comes last in the trace. -/
@[simp] theorem mark_trace (w : World Op Ret Mark σ) (m : Mark) :
    (w.mark m).trace = w.trace ++ [.mark m] := rfl

/-- A call changes no state. -/
@[simp] theorem called_state (w : World Op Ret Mark σ) (o : Op) (r : Ret o) :
    (w.called o r).state = w.state := rfl

/-- A call comes last in the trace, with its answer. -/
@[simp] theorem called_trace (w : World Op Ret Mark σ) (o : Op) (r : Ret o) :
    (w.called o r).trace = w.trace ++ [.called o r] := rfl

/-- The state that is written is the state. -/
@[simp] theorem write_state (w : World Op Ret Mark σ) (s : σ) : (w.write s).state = s := rfl

/-- Writing the state leaves no event. -/
@[simp] theorem write_trace (w : World Op Ret Mark σ) (s : σ) : (w.write s).trace = w.trace := rfl

end World

namespace Program

/-- Sequential composition: an error of the first program ends the whole. -/
def bind : Program Op Ret Mark σ ε α → (α → Program Op Ret Mark σ ε β) →
    Program Op Ret Mark σ ε β
  | ret a, f => f a
  | raise e, _ => raise e
  | hang, _ => hang
  | get k, f => get fun s => (k s).bind f
  | put s k, f => put s (k.bind f)
  | emit m k, f => emit m (k.bind f)
  | call o k, f => call o fun r => (k r).bind f

instance : Monad (Program Op Ret Mark σ ε) where
  pure := ret
  bind := bind

/-- Run a program and return its outcome, so that an error becomes a value: the `try` of the
source, whose handlers are then a case distinction. -/
def attempt : Program Op Ret Mark σ ε α → Program Op Ret Mark σ ε (Except ε α)
  | ret a => ret (.ok a)
  | raise e => ret (.error e)
  | hang => hang
  | get k => get fun s => (k s).attempt
  | put s k => put s k.attempt
  | emit m k => emit m k.attempt
  | call o k => call o fun r => (k r).attempt

/-- Read the state. -/
def read : Program Op Ret Mark σ ε σ := get ret

/-- Apply a function to the state. -/
def modify (f : σ → σ) : Program Op Ret Mark σ ε Unit := get fun s => put (f s) (ret ())

/-- Leave a mark. -/
def note (m : Mark) : Program Op Ret Mark σ ε Unit := emit m (ret ())

/-- Call an operation and return its answer. -/
def perform (o : Op) : Program Op Ret Mark σ ε (Ret o) := call o ret

/-- Turn an outcome back into a program: an error is raised. -/
def ofExcept : Except ε α → Program Op Ret Mark σ ε α
  | .ok a => ret a
  | .error e => raise e

/-- Repeat a program that returns the next loop state or the value of the loop, for at most the
given number of rounds. -/
def iterate {κ : Type} (body : κ → Program Op Ret Mark σ ε (κ ⊕ α)) :
    ℕ → κ → Program Op Ret Mark σ ε α
  | 0, _ => hang
  | n + 1, k => bind (body k) fun
    | .inl k' => iterate body n k'
    | .inr a => ret a

/-- A value is returned. -/
@[simp] theorem ofExcept_ok (a : α) :
    (ofExcept (.ok a) : Program Op Ret Mark σ ε α) = ret a := rfl

/-- An error is raised. -/
@[simp] theorem ofExcept_error (e : ε) :
    (ofExcept (.error e) : Program Op Ret Mark σ ε α) = raise e := rfl

/-- `pure` is returning. -/
@[simp] theorem pure_eq_ret (a : α) : (pure a : Program Op Ret Mark σ ε α) = ret a := rfl

/-- What follows a returned value is done with it. -/
@[simp] theorem ret_bind (a : α) (f : α → Program Op Ret Mark σ ε β) :
    (ret a : Program Op Ret Mark σ ε α) >>= f = f a := rfl

/-- Nothing follows an error. -/
@[simp] theorem raise_bind (e : ε) (f : α → Program Op Ret Mark σ ε β) :
    (raise e : Program Op Ret Mark σ ε α) >>= f = raise e := rfl

/-- The sequence of the monad is the sequence of programs. -/
theorem bind_eq (p : Program Op Ret Mark σ ε α) (f : α → Program Op Ret Mark σ ε β) :
    p >>= f = p.bind f := rfl

/-- Returning what a program returns adds nothing. -/
theorem bind_ret (p : Program Op Ret Mark σ ε α) : p.bind ret = p := by
  induction p with
  | ret a => rfl
  | raise e => rfl
  | hang => rfl
  | get k ih => exact congrArg get (funext ih)
  | put s k ih => exact congrArg (put s) ih
  | emit m k ih => exact congrArg (emit m) ih
  | call o k ih => exact congrArg (call o) (funext ih)

/-- It does not matter how sequences are grouped. -/
theorem bind_bind {γ : Type} (p : Program Op Ret Mark σ ε α) (f : α → Program Op Ret Mark σ ε β)
    (g : β → Program Op Ret Mark σ ε γ) : (p.bind f).bind g = p.bind fun a => (f a).bind g := by
  induction p with
  | ret a => rfl
  | raise e => rfl
  | hang => rfl
  | get k ih => exact congrArg get (funext ih)
  | put s k ih => exact congrArg (put s) ih
  | emit m k ih => exact congrArg (emit m) ih
  | call o k ih => exact congrArg (call o) (funext ih)

instance : LawfulMonad (Program Op Ret Mark σ ε) :=
  LawfulMonad.mk' _ bind_ret (fun _ _ => rfl) bind_bind

/-! ## Running a program to its end -/

/-- Execute a program against a handler. -/
def run (h : Handler Op Ret Mark) :
    Program Op Ret Mark σ ε α → World Op Ret Mark σ → Outcome ε α × World Op Ret Mark σ
  | ret a, w => (.returned a, w)
  | raise e, w => (.raised e, w)
  | hang, w => (.hung, w)
  | get k, w => (k w.state).run h w
  | put s k, w => k.run h (w.write s)
  | emit m k, w => k.run h (w.mark m)
  | call o k, w => (k (h w.trace o)).run h (w.called o (h w.trace o))

section Run

variable (h : Handler Op Ret Mark) (w : World Op Ret Mark σ)

/-- A returned value is the outcome. -/
@[simp] theorem run_ret (a : α) :
    (ret a : Program Op Ret Mark σ ε α).run h w = (.returned a, w) := rfl

/-- A raised error is the outcome. -/
@[simp] theorem run_raise (e : ε) :
    (raise e : Program Op Ret Mark σ ε α).run h w = (.raised e, w) := rfl

/-- A program that hangs does so. -/
@[simp] theorem run_hang :
    (hang : Program Op Ret Mark σ ε α).run h w = (.hung, w) := rfl

/-- Reading returns the state. -/
@[simp] theorem run_read :
    (read : Program Op Ret Mark σ ε σ).run h w = (.returned w.state, w) := rfl

/-- Modifying writes the state. -/
@[simp] theorem run_modify (f : σ → σ) :
    (modify f : Program Op Ret Mark σ ε Unit).run h w = (.returned (), w.write (f w.state)) := rfl

/-- A note leaves its mark. -/
@[simp] theorem run_note (m : Mark) :
    (note m : Program Op Ret Mark σ ε Unit).run h w = (.returned (), w.mark m) := rfl

/-- A call is answered by the environment, which has seen the trace so far. -/
@[simp] theorem run_perform (o : Op) :
    (perform o : Program Op Ret Mark σ ε (Ret o)).run h w =
      (.returned (h w.trace o), w.called o (h w.trace o)) := rfl

/-- A composed run goes on from where the first program returned, and stops where it raised. -/
theorem run_bind (p : Program Op Ret Mark σ ε α) (f : α → Program Op Ret Mark σ ε β) :
    (p >>= f).run h w =
      match p.run h w with
      | (.returned a, w') => (f a).run h w'
      | (.raised e, w') => (.raised e, w')
      | (.hung, w') => (.hung, w') := by
  change (p.bind f).run h w = _
  induction p generalizing w with
  | ret a => rfl
  | raise e => rfl
  | hang => rfl
  | get k ih => exact ih w.state w
  | put s k ih => exact ih (w.write s)
  | emit m k ih => exact ih (w.mark m)
  | call o k ih => exact ih (h w.trace o) (w.called o (h w.trace o))

/-- If the first program returns, the composed run is the run of the rest. -/
theorem run_bind_returned {p : Program Op Ret Mark σ ε α} {f : α → Program Op Ret Mark σ ε β}
    {w w' : World Op Ret Mark σ} {a : α} (hp : p.run h w = (.returned a, w')) :
    (p >>= f).run h w = (f a).run h w' := by
  rw [run_bind, hp]

/-- If the first program raises, the composed run raises the same error. -/
theorem run_bind_raised {p : Program Op Ret Mark σ ε α} {f : α → Program Op Ret Mark σ ε β}
    {w w' : World Op Ret Mark σ} {e : ε} (hp : p.run h w = (.raised e, w')) :
    (p >>= f).run h w = (.raised e, w') := by
  rw [run_bind, hp]

/-- Attempting a program never raises; its outcome is the value. -/
theorem run_attempt (p : Program Op Ret Mark σ ε α) :
    p.attempt.run h w = (Outcome.caught (p.run h w).1, (p.run h w).2) := by
  induction p generalizing w with
  | ret a => rfl
  | raise e => rfl
  | hang => rfl
  | get k ih => exact ih w.state w
  | put s k ih => exact ih (w.write s)
  | emit m k ih => exact ih (w.mark m)
  | call o k ih => exact ih (h w.trace o) (w.called o (h w.trace o))

/-- A run only appends to the trace. -/
theorem trace_prefix_run (p : Program Op Ret Mark σ ε α) :
    w.trace <+: (p.run h w).2.trace := by
  induction p generalizing w with
  | ret a => exact List.prefix_rfl
  | raise e => exact List.prefix_rfl
  | hang => exact List.prefix_rfl
  | get k ih => exact ih w.state w
  | put s k ih => exact ih (w.write s)
  | emit m k ih => exact (List.prefix_append _ _).trans (ih (w.mark m))
  | call o k ih =>
    exact (List.prefix_append _ _).trans (ih (h w.trace o) (w.called o (h w.trace o)))

/-- What the first part of a sequence leaves in the trace stays there. -/
theorem trace_prefix_run_bind {β : Type} (p : Program Op Ret Mark σ ε α)
    (k : α → Program Op Ret Mark σ ε β) :
    (p.run h w).2.trace <+: ((p >>= k).run h w).2.trace := by
  rw [run_bind]
  obtain ⟨r, w₁⟩ := p.run h w
  cases r with
  | returned a => exact trace_prefix_run h w₁ (k a)
  | raised e => exact List.prefix_rfl
  | hung => exact List.prefix_rfl

end Run

/-! ## Running a program up to its next call -/

/-- Where a program stops when it is run without answering its calls. -/
inductive Pause (Op : Type) (Ret : Op → Type) (Mark σ ε : Type) (α : Type) : Type where
  | ended (r : Outcome ε α)
  | waiting (o : Op) (k : Ret o → Program Op Ret Mark σ ε α)

/-- Run a program up to its next call. -/
def advance : Program Op Ret Mark σ ε α → World Op Ret Mark σ →
    Pause Op Ret Mark σ ε α × World Op Ret Mark σ
  | ret a, w => (.ended (.returned a), w)
  | raise e, w => (.ended (.raised e), w)
  | hang, w => (.ended .hung, w)
  | get k, w => (k w.state).advance w
  | put s k, w => k.advance (w.write s)
  | emit m k, w => k.advance (w.mark m)
  | call o k, w => (.waiting o k, w)

end Program

end Effect
