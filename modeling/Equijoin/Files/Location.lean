import Equijoin.Files.Path

/-! # Where files stand

A location is the list of names that lead to a file from the directory of the run. Some names no
path can spell: a run gives them to files and directories of its own, so that nothing that a job
names is ever one of these.

* `Name`, `Location`: the names, and the lists of them.
* `Scratch`: a directory of a run's own.
* `FilePath`: the path of a file, spelled by a text or inside a scratch directory.
* `Folder`: a directory in which files are made.
-/

set_option autoImplicit false

namespace Equijoin

/-- One step of a location. -/
inductive Name where
  /-- The root, from wherever. -/
  | root
  /-- The directory above. It comes only at the start of a location. -/
  | above
  /-- A name that a path spells. -/
  | given (text : String)
  /-- A name that no path spells. -/
  | fresh (serial : Nat)
  deriving DecidableEq, Repr

/-- The names from the directory of the run to a file. -/
abbrev Location := List Name

namespace Name

/-- A serial number above that of a name. -/
def bound : Name → Nat
  | fresh serial => serial + 1
  | _ => 0

end Name

/-- A directory of a run's own. -/
structure Scratch where
  location : Location
  /-- The bytes of its path from the root. -/
  pathSize : Nat
  deriving DecidableEq, Repr

/-- The path of a file. -/
inductive FilePath where
  | spelled (path : String)
  | inside (dir : Scratch) (name : String)
  deriving DecidableEq, Repr

instance : Coe String FilePath := ⟨FilePath.spelled⟩

/-- A directory in which files are made. -/
inductive Folder where
  | spelled (path : String)
  | scratch (dir : Scratch)
  deriving DecidableEq, Repr

instance : Coe String Folder := ⟨Folder.spelled⟩

def Folder.file (folder : Folder) (name : String) : FilePath :=
  match folder with
  | spelled path => .spelled (Path.join path name)
  | scratch dir => .inside dir name

end Equijoin
