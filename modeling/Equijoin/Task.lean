import Equijoin.Fault

/-! # Tasks in steps

A task of a run takes steps. Between two steps other tasks may take theirs, so a step is what the
others cannot see in part.

* `Task`: the task ends, or looks at the flag of the run, or acts on the state that all tasks share.
* `Task.bind`: one task after another; a fault ends both.
* `Task.check`, `Task.act`, `Task.attempt`: the tasks of one step.
* `Task.finish`: a task taken as far as it gets while no other takes a step.
-/

set_option autoImplicit false

namespace Equijoin

/-- A task on a shared state `σ` that yields an `α`. -/
inductive Task (σ α : Type) where
  /-- The task has ended. -/
  | done (result : Outcome α)
  /-- The task looks at the flag. -/
  | look (next : Bool → Task σ α)
  /-- The task changes the state, and goes on by what the state was before. It has to wait while
  there is no change to make. -/
  | step (change : σ → Option σ) (next : σ → Task σ α)

namespace Task

variable {σ τ α β : Type}

def succeed (a : α) : Task σ α := done (.ok a)

def fail (fault : Fault) : Task σ α := done (.error fault)

/-- A task, and another one made from its result. -/
def bind : Task σ α → (α → Task σ β) → Task σ β
  | done (.ok a), f => f a
  | done (.error fault), _ => done (.error fault)
  | look next, f => look fun raised => bind (next raised) f
  | step change next, f => step change fun s => bind (next s) f

instance : Monad (Task σ) where
  pure := succeed
  bind := bind

def ofOutcome (result : Outcome α) : Task σ α := done result

/-- A task whose fault becomes a result. -/
def caught : Task σ α → Task σ (Outcome α)
  | done result => done (.ok result)
  | look next => look fun raised => caught (next raised)
  | step change next => step change fun s => caught (next s)

/-! ## Single steps -/

/-- The task stops here if the flag is raised. -/
def check : Task σ Unit :=
  look fun raised => if raised then fail .cancelled else succeed ()

def read : Task σ σ := step some succeed

def act (change : σ → σ) : Task σ Unit :=
  step (fun s => some (change s)) fun _ => succeed ()

/-- A change that may fail, and then changes nothing. -/
def attempt (change : σ → Outcome σ) : Task σ Unit :=
  step (fun s => some (match change s with | .ok s' => s' | .error _ => s))
    fun s => done ((change s).map fun _ => ())

/-- A change that waits until it can be made. -/
def await (change : σ → Option σ) : Task σ Unit :=
  step change fun _ => succeed ()

def within (get : τ → σ) (set : τ → σ → τ) : Task σ α → Task τ α
  | done result => done result
  | look next => look fun raised => within get set (next raised)
  | step change next =>
    step (fun t => (change (get t)).map (set t)) fun t => within get set (next (get t))

/-! ## Running alone -/

/-- What is left of a task, and the state, once it has taken all the steps that it can take. -/
def finish (raised : Bool) : Task σ α → σ → Task σ α × σ
  | done result, s => (done result, s)
  | look next, s => finish raised (next raised) s
  | step change next, s =>
    match change s with
    | some s' => finish raised (next s) s'
    | none => (step change next, s)

/-- The result of a task that nothing keeps waiting, and the state after it. -/
def alone (raised : Bool) (t : Task σ α) (s : σ) : Option (Outcome α × σ) :=
  match t.finish raised s with
  | (done result, s) => some (result, s)
  | _ => none

end Task

end Equijoin
