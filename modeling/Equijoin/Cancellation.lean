import Equijoin.Fault

/-! # Cancellation

The tasks of a run share a flag. The first that fails raises it, and the others stop where they look
at it next.

* `collect`: what the results of tasks come to. The first fault that is not itself a cancellation
  is the cause of the others.
* `Flags`: flags and the handles through which they are shared.
-/

set_option autoImplicit false

namespace Equijoin

variable {α : Type}

/-- The first fault, by task, that is not a cancellation. -/
def rootCause? (results : List (Outcome α)) : Option Fault :=
  results.findSome? fun
    | .ok _ => none
    | .error .cancelled => none
    | .error fault => some fault

/-- All results, or the cause of the failure; a cancellation only if nothing else failed. -/
def collect (results : List (Outcome α)) : Outcome (List α) :=
  match rootCause? results with
  | some fault => .error fault
  | none => results.mapM id

/-! ## Flags -/

/-- Flags, and the flag of every handle. -/
structure Flags where
  raised : List Bool
  handles : List Nat
  deriving DecidableEq, Repr

namespace Flags

def isRaised (f : Flags) (handle : Nat) : Bool :=
  ((f.handles[handle]?).bind (f.raised[·]?)).getD false

/-- The flags with a new one, which is not raised, and a handle on it. -/
def add (f : Flags) : Flags :=
  ⟨f.raised ++ [false], f.handles ++ [f.raised.length]⟩

/-- A new flag alone. -/
def single : Flags := add ⟨[], []⟩

def share (f : Flags) (handle : Nat) : Flags :=
  match f.handles[handle]? with
  | some flag => { f with handles := f.handles ++ [flag] }
  | none => f

def raise (f : Flags) (handle : Nat) : Flags :=
  match f.handles[handle]? with
  | some flag => { f with raised := f.raised.set flag true }
  | none => f

/-- A cancellation once the flag is raised. -/
def check (f : Flags) (handle : Nat) : Outcome Unit :=
  if f.isRaised handle then .error .cancelled else .ok ()

/-- The flags after a result: a failure raises the flag. -/
def observe (f : Flags) (handle : Nat) (result : Outcome α) : Flags :=
  match result with
  | .ok _ => f
  | .error _ => f.raise handle

end Flags

end Equijoin
