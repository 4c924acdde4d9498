/-! # The text of paths

* `Path.pieces`, `Path.isAbsolute`, `Path.endsInSlash`: how a path is read.
* `Path.join`: a name below a directory.
* `Path.directory`: the directory in which the file of a path stands.
-/

set_option autoImplicit false

namespace Equijoin.Path

def pieces (p : String) : List String :=
  (p.toList.splitOn '/').map String.ofList

def isAbsolute (p : String) : Bool :=
  p.toList.head? == some '/'

/-- A path that can only name a directory. -/
def endsInSlash (p : String) : Bool :=
  p.toList.getLast? == some '/'

/-- A name below a directory. -/
def join (dir name : String) : String :=
  if dir.isEmpty || endsInSlash dir then dir ++ name else dir ++ "/" ++ name

/-- Pieces without the empty ones at the end. -/
def dropSlashes (ps : List String) : List String :=
  (ps.reverse.dropWhile (· == "")).reverse

/-- Pieces without the ones at the end that lead nowhere. -/
def dropIdle (ps : List String) : List String :=
  (ps.reverse.dropWhile fun s => s == "" || s == ".").reverse

/-- The directory in which the file of a path stands, as far as the path spells it. -/
def directory (p : String) : String :=
  match pieces p with
  | [] => "."
  | first :: rest =>
    match dropIdle rest with
    | [] => "."
    | steps =>
      match dropIdle steps.dropLast with
      | [] => if first.isEmpty then "/" else first
      | above => String.intercalate "/" (first :: above)

end Equijoin.Path
