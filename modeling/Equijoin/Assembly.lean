import Equijoin.Delimiter
import Equijoin.Fault
import Equijoin.Schema.Merge
import Equijoin.Schema.Notation
import Equijoin.Task
import Equijoin.Value

/-! # Assembling the output

The joined rows of each shard go to a part file. The parts become one file with a header, which is
staged next to the place of the output and takes that place in one step.

* `Part`, `writePart`: a joined shard and its file.
* `assembledText`: the text of the output. Parts come in the order of their indices, each once.
* `assemble`, `stageDescriptor`: the files of a run before they are published.
* `commit`: a staged file takes its place, or nothing changes but that it is gone.
-/

set_option autoImplicit false

namespace Equijoin

/-! ## Parts -/

/-- A joined shard in a file without a header. -/
structure Part where
  index : Nat
  columns : List String
  rows : Nat
  path : FilePath
  deriving DecidableEq, Repr

/-- A table is written to a file as the part of the given index. -/
def writePart (index : Nat) (table : Table) (path : FilePath) : Task FileTree Part := do
  let write (content : Bytes) : Task FileTree Unit :=
    Task.attempt fun files =>
      (files.writeFile path content).mapError fun fault => .csv (.io fault)
  write []
  write (← Task.ofOutcome ((Csv.writeLines Delimiter.comma table.cells).mapError Fault.csv))
  Task.succeed ⟨index, table.columns, table.rows.length, path⟩

/-- The number of rows of all parts. -/
def totalRows : List Part → Nat
  | [] => 0
  | part :: rest => part.rows + totalRows rest

/-- The content of parts that all have the given columns. A part without rows needs no file. -/
def partTexts (files : FileTree) (columns : List String) : List Part → Outcome Bytes
  | [] => .ok []
  | part :: rest => do
    if part.columns ≠ columns then
      throw (.schema (.unequalParts part.index part.columns columns))
    let text ← if part.rows = 0 then pure [] else (files.read part.path).mapError Fault.io
    .ok (text ++ (← partTexts files columns rest))

def assembledText (files : FileTree) (columns : List String) (parts : List Part) :
    Outcome Bytes := do
  .ok (Csv.writeLine Delimiter.comma columns ++ (← partTexts files columns parts))

/-! ## Staged files -/

/-- An output that is complete, but not at its place. -/
structure Assembled where
  columns : List String
  rows : Nat
  /-- The staged file. -/
  staged : Location
  deriving DecidableEq, Repr

/-- Parts become one file that is staged next to a path. -/
def assemble (parts : List Part) (path : String) (files : FileTree) :
    Outcome (Assembled × FileTree) := do
  let parts := parts.mergeSort fun p q => p.index.ble q.index
  match parts with
  | [] => throw (.config .noPart)
  | first :: _ =>
    let staged ← (files.stagingPlace path).mapError Fault.io
    let text ← assembledText files first.columns parts
    .ok (⟨first.columns, totalRows parts, staged⟩, files.put staged (.file text))

/-- The descriptor of an output is staged next to a path. -/
def stageDescriptor (d : Descriptor) (path : String) (files : FileTree) :
    Outcome (Location × FileTree) := do
  let (files, staged) ← (files.stage path (Utf8.encode d.write)).mapError Fault.io
  .ok (staged, files)

/-- A staged file takes the place of the file of a path. If it cannot, it is gone. -/
def commit (staged : Location) (path : String) (files : FileTree) : Outcome Unit × FileTree :=
  match files.publish staged path with
  | .ok files => (.ok (), files)
  | .error fault => (.error (.io fault), files.unstage staged)

end Equijoin
