import Equijoin.Cancellation
import Equijoin.Task

/-! # Pools of tasks

The tasks of one stage of a run, with the flag and the state that they share. Each step of a pool is
a step of one of its tasks; a schedule says of which. The result of a task that has ended is
observed in a step of its own, which raises the flag if the task has failed.

* `Pool.step?`: one step of one task.
* `Pool.run`: the steps of a schedule.
* `Pool.finish`: the tasks that a schedule leaves unfinished, one after another.
* `fanOut`: what tasks come to, run side by side.
-/

set_option autoImplicit false

namespace Equijoin

variable {σ α : Type}

/-- A task of a pool. -/
inductive Member (σ α : Type) where
  | running (task : Task σ α)
  /-- The result has been observed. -/
  | ended (result : Outcome α)

def Member.result? : Member σ α → Option (Outcome α)
  | .running _ => none
  | .ended result => some result

/-- Tasks, their flag and their state. -/
structure Pool (σ α : Type) where
  members : List (Member σ α)
  raised : Bool
  state : σ

/-- Which task takes the next step, and the one after that, and so on. -/
abbrev Schedule := List Nat

/-- A result is a fault. -/
def failed : Outcome α → Bool
  | .ok _ => false
  | .error _ => true

namespace Pool

/-- Tasks that have not begun. -/
def start (tasks : List (Task σ α)) (state : σ) : Pool σ α :=
  ⟨tasks.map .running, false, state⟩

/-- The pool after a step of a task, unless the task has ended or has to wait. -/
def step? (p : Pool σ α) (i : Nat) : Option (Pool σ α) :=
  match p.members[i]? with
  | some (.running (.done result)) =>
    some { p with members := p.members.set i (.ended result), raised := p.raised || failed result }
  | some (.running (.look next)) =>
    some { p with members := p.members.set i (.running (next p.raised)) }
  | some (.running (.step change next)) =>
    (change p.state).map fun state =>
      { p with members := p.members.set i (.running (next p.state)), state := state }
  | _ => none

/-- The pool after the steps of a schedule. Steps that cannot be taken are passed over. -/
def run (p : Pool σ α) : Schedule → Pool σ α
  | [] => p
  | i :: schedule => ((p.step? i).getD p).run schedule

/-- The pool after all the steps that a task can take on its own. -/
def settle (p : Pool σ α) (i : Nat) : Pool σ α :=
  match p.members[i]? with
  | some (.running task) =>
    match task.finish p.raised p.state with
    | (.done result, state) =>
      ⟨p.members.set i (.ended result), p.raised || failed result, state⟩
    | (task, state) => { p with members := p.members.set i (.running task), state := state }
  | _ => p

/-- The pool after every task has been settled once. -/
def sweep (p : Pool σ α) : Pool σ α :=
  (List.range p.members.length).foldl settle p

/-- The pool after all tasks. A task that has to wait for a later one gets a second turn. -/
def finish (p : Pool σ α) : Pool σ α :=
  p.sweep.sweep

/-- The results that have been observed, in the order of the tasks. -/
def results (p : Pool σ α) : List (Outcome α) :=
  p.members.filterMap Member.result?

end Pool

/-- What tasks come to if their steps interleave as a schedule says, and the state after them. -/
def fanOut (schedule : Schedule) (tasks : List (Task σ α)) (state : σ) :
    Outcome (List α) × σ :=
  let p := ((Pool.start tasks state).run schedule).finish
  (collect p.results, p.state)

end Equijoin
