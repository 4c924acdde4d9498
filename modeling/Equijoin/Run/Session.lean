import Equijoin.Files.FileTree
import Equijoin.Run.Event
import Equijoin.Task.Pool

/-! # Sessions and phases

* `Session`: what the parts of a run share. It outlives the run, so that the counters tell one run
  from the next.
* `Phase`: a part of a run. It changes the session also when it fails.
* `Phase.sideBySide`: tasks as a part of a run.
* `Phase.withScratch`: a part of a run that has a scratch directory to itself.
-/

set_option autoImplicit false

namespace Equijoin

/-- What the parts of a run share. -/
structure Session where
  files : FileTree
  metrics : Metrics
  /-- Shards that may still be admitted. -/
  permits : Nat
  /-- The stage that the run has entered last. -/
  stage : Stage
  /-- What the run has reported. -/
  events : List Event
  deriving Repr

namespace Session

def ofFiles (files : FileTree) : Session := ⟨files, .zero, 0, .init, []⟩

def emit (s : Session) (e : Event) : Session :=
  { s with events := s.events ++ [e] }

def enter (s : Session) (stage : Stage) : Session :=
  { s with stage := stage }.emit (.stageStarted stage)

def withFiles (s : Session) (files : FileTree) : Session :=
  { s with files := files }

/-- The session with one permit less, if there is one. -/
def admit? (s : Session) : Option Session :=
  match s.permits with
  | 0 => none
  | n + 1 => some { s with permits := n }

def release (s : Session) : Session :=
  { s with permits := s.permits + 1 }

end Session

def Task.onFiles {α : Type} (t : Task FileTree α) : Task Session α :=
  t.within Session.files Session.withFiles

def Task.emit (e : Event) : Task Session Unit :=
  Task.act fun s => s.emit e

def Task.count (change : Metrics → Metrics) : Task Session Unit :=
  Task.act fun s => { s with metrics := change s.metrics }

/-! ## Phases -/

def Phase (α : Type) := Session → Outcome α × Session

namespace Phase

variable {α β : Type}

def succeed (a : α) : Phase α := fun s => (.ok a, s)

/-- One phase after another; a fault ends both. -/
def bind (p : Phase α) (f : α → Phase β) : Phase β := fun s =>
  match p s with
  | (.ok a, s) => f a s
  | (.error fault, s) => (.error fault, s)

instance : Monad Phase where
  pure := succeed
  bind := bind

def ofOutcome (result : Outcome α) : Phase α := fun s => (result, s)

def files : Phase FileTree := fun s => (.ok s.files, s)

def change (f : Session → Session) : Phase Unit := fun s => (.ok (), f s)

def emit (e : Event) : Phase Unit := change (·.emit e)

def enter (stage : Stage) : Phase Unit := change (·.enter stage)

def onFiles (f : FileTree → Outcome α × FileTree) : Phase α := fun s =>
  let (result, files) := f s.files
  (result, s.withFiles files)

def sideBySide (schedule : Schedule) (tasks : List (Task Session α)) : Phase (List α) :=
  fanOut schedule tasks

/-- A phase with a new directory below another, which is removed afterwards in any case. -/
def withScratch (parent : String) (body : Scratch → Phase α) : Phase α := fun s =>
  match s.files.createScratch parent with
  | .error fault => (.error (.io fault), s)
  | .ok (files, scratch) =>
    let (result, s) := body scratch (s.withFiles files)
    (result, s.withFiles (s.files.removeScratch scratch))

end Phase

end Equijoin
