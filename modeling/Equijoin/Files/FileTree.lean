import Equijoin.Files.IoFault
import Equijoin.Files.Location
import Equijoin.Text.Utf8

/-! # Files and directories

The files that a run sees, as a value.

* `FileTree.node?`, `FileTree.put`, `FileTree.erase`: the tree as a map from locations to nodes.
* `FileTree.resolve`: the location that a path names. Every step leaves an existing directory; a
  dot stays, two dots go up.
* `read`, `writeFile`, `removeFile`, `size`: operations on paths.
* `createScratch`, `removeScratch`: a new directory, and its removal with all below it.
* `stage`, `publish`, `unstage`: a new file under a fresh name, and its two ends.
-/

set_option autoImplicit false

namespace Equijoin

/-! ## The tree -/

/-- What stands at a location. -/
inductive Node where
  | file (content : Bytes)
  | directory
  deriving DecidableEq, Repr

/-- Files and directories by location. The directory of the run and those above it are always
there. -/
structure FileTree where
  /-- The bytes of the path of the directory of the run. -/
  homeSize : Nat
  entries : List (Location × Node)
  deriving Repr

/-- The bytes of the name of a staged file. -/
def stagedNameSize : Nat := 10

/-- The bytes of the name of a scratch directory. -/
def scratchNameSize : Nat := 23

namespace FileTree

/-- Nothing but the directory of the run, the root and the system's directory for temporary
files. -/
def ofHome (homeSize : Nat) : FileTree :=
  ⟨homeSize, [([.root], .directory), ([.root, .given "tmp"], .directory)]⟩

/-- The same for a run in a new directory below that for temporary files. -/
def empty : FileTree := ofHome ("/tmp/".utf8ByteSize + stagedNameSize)

def node? (t : FileTree) (l : Location) : Option Node :=
  if l.all (· == .above) then some .directory else t.entries.lookup l

def put (t : FileTree) (l : Location) (n : Node) : FileTree :=
  { t with entries := (l, n) :: t.entries.filter (·.1 != l) }

def erase (t : FileTree) (l : Location) : FileTree :=
  { t with entries := t.entries.filter (·.1 != l) }

/-- The tree with nothing at a location and nothing below it. -/
def eraseBelow (t : FileTree) (l : Location) : FileTree :=
  { t with entries := t.entries.filter fun e => !l.isPrefixOf e.1 }

/-! ## Paths in a tree -/

def enter (t : FileTree) (l : Location) : Except IoFault Unit :=
  match t.node? l with
  | some .directory => .ok ()
  | some (.file _) => .error .notADirectory
  | none => .error .notFound

/-- The location above another. The root is above itself. -/
def parent (here : Location) : Location :=
  match here.getLast? with
  | some .root => here
  | none | some .above => here ++ [.above]
  | some (.given _) | some (.fresh _) => here.dropLast

def step (here : Location) (name : String) : Except IoFault Location :=
  if name = "" || name = "." then .ok here
  else if name = ".." then .ok (parent here)
  else if 255 < name.utf8ByteSize then .error .invalidFilename
  else .ok (here ++ [.given name])

def walk (t : FileTree) : Location → List String → Except IoFault Location
  | here, [] => .ok here
  | here, name :: names => do
    t.enter here
    walk t (← step here name) names

/-- Where a path starts. -/
def start (p : String) : Location :=
  if Path.isAbsolute p then [.root] else []

def checkSize (size : Nat) : Except IoFault Unit :=
  if 4095 < size then .error .invalidFilename else .ok ()

/-- A path can be read as one, if it has so many bytes. -/
def checkPath (p : String) (size : Nat) : Except IoFault Unit :=
  if p.toList.contains (Char.ofNat 0) then .error .invalidInput
  else if p = "" then .error .notFound
  else checkSize size

def resolve (t : FileTree) (p : String) : Except IoFault Location := do
  checkPath p p.utf8ByteSize
  t.walk (start p) (Path.pieces p)

def locate (t : FileTree) (p : FilePath) : Except IoFault Location :=
  match p with
  | .spelled path => t.resolve path
  | .inside dir name => do
    checkSize (dir.pathSize + 1 + name.utf8ByteSize)
    t.enter dir.location
    .ok (dir.location ++ [.given name])

def read (t : FileTree) (p : FilePath) : Except IoFault Bytes := do
  match t.node? (← t.locate p) with
  | some (.file content) => .ok content
  | some .directory => .error .isADirectory
  | none => .error .notFound

/-- The size of what a path names; a directory takes one block. -/
def size (t : FileTree) (p : FilePath) : Except IoFault Nat := do
  match t.node? (← t.locate p) with
  | some (.file content) => .ok content.length
  | some .directory => .ok 4096
  | none => .error .notFound

def writeFile (t : FileTree) (p : FilePath) (content : Bytes) : Except IoFault FileTree := do
  let l ← t.locate p
  match t.node? l with
  | some .directory => .error .isADirectory
  | _ => .ok (t.put l (.file content))

def removeFile (t : FileTree) (p : FilePath) : Except IoFault FileTree := do
  let l ← t.locate p
  match t.node? l with
  | some (.file _) => .ok (t.erase l)
  | some .directory => .error .isADirectory
  | none => .error .notFound

/-- The tree without a file, if there is such a file. -/
def discard (t : FileTree) (p : FilePath) : FileTree :=
  match t.removeFile p with
  | .ok t => t
  | .error _ => t

/-! ## Fresh names -/

/-- A serial number above all those in the tree. -/
def nextSerial (t : FileTree) : Nat :=
  t.entries.foldr (fun e n => e.1.foldr (fun name n => max name.bound n) n) 0

/-- The bytes of the path of a name below a directory, from the root. -/
def pathSize (t : FileTree) (dir : String) (nameSize : Nat) : Nat :=
  (if Path.isAbsolute dir then 0 else t.homeSize + 1) + (Path.join dir "").utf8ByteSize + nameSize

/-- A location under a fresh name in a directory. -/
def freshPlace (t : FileTree) (dir : String) (nameSize : Nat) : Except IoFault Location := do
  checkPath dir (t.pathSize dir nameSize)
  let l ← t.walk (start dir) (Path.pieces dir)
  t.enter l
  .ok (l ++ [.fresh t.nextSerial])

def createScratch (t : FileTree) (dir : String) : Except IoFault (FileTree × Scratch) := do
  let l ← t.freshPlace dir scratchNameSize
  .ok (t.put l .directory, ⟨l, t.pathSize dir scratchNameSize⟩)

/-- The tree without a directory and all that is below it. -/
def removeScratch (t : FileTree) (dir : Scratch) : FileTree :=
  t.eraseBelow dir.location

/-- The place for a new file next to the file of a path. -/
def stagingPlace (t : FileTree) (p : String) : Except IoFault Location :=
  t.freshPlace (Path.directory p) stagedNameSize

/-- A new file next to the file of a path. -/
def stage (t : FileTree) (p : String) (content : Bytes) :
    Except IoFault (FileTree × Location) := do
  let l ← t.stagingPlace p
  .ok (t.put l (.file content), l)

def unstage (t : FileTree) (staged : Location) : FileTree :=
  t.erase staged

/-- The location that a file can take that is moved to a path. The last name of the path must be a
name of its own, and no slash may follow it. -/
def destination (t : FileTree) (p : String) : Except IoFault Location := do
  checkPath p p.utf8ByteSize
  let steps := Path.dropSlashes (Path.pieces p)
  let dir ← t.walk (start p) steps.dropLast
  t.enter dir
  match steps.getLast? with
  | none | some "." | some ".." => .error .resourceBusy
  | some name =>
    let l ← step dir name
    if Path.endsInSlash p then .error .notADirectory
    else if t.node? l = some .directory then .error .isADirectory
    else .ok l

/-- The tree in which a staged file has taken the place of the file of a path, in one step. -/
def publish (t : FileTree) (staged : Location) (p : String) : Except IoFault FileTree := do
  let target ← t.destination p
  match t.node? staged with
  | some (.file content) => .ok ((t.erase staged).put target (.file content))
  | some .directory => .error .isADirectory
  | none => .error .notFound

end FileTree

end Equijoin
