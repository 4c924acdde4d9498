import Equijoin.Cell
import Equijoin.Files.FileTree
import Equijoin.Header

/-! # Loading tables

* `FileTree.readSheet`: the header and the records of a file.
* `Table.ofSheet`: a sheet as a table, typed by a schema.
* `Table.load`: the table of a file.

The first fault from the top is the one that is reported; rows are numbered from 1, the header
included.
-/

set_option autoImplicit false

namespace Equijoin

def FileTree.readSheet (files : FileTree) (path : FilePath) (delimiter : UInt8) :
    Outcome Csv.Sheet :=
  match files.read path with
  | .error fault => .error (.csv (.io fault))
  | .ok text => (Csv.Sheet.read delimiter text).mapError Fault.csv

/-- The columns of a header with their declared types. -/
def Schema.resolveSheet (schema : Schema) (sheet : Csv.Sheet) : Outcome (List ColumnType) :=
  (schema.resolve sheet.header).mapError Fault.schema

namespace Table

def readCells (row : Nat) : List (String × Storage) → List String → Outcome Row
  | (column, storage) :: columns, raw :: cells => do
    let v ← Value.ofCellAt row column storage raw
    let vs ← readCells row columns cells
    .ok (v :: vs)
  | _, _ => .ok []

/-- The rows of records, the first of which is the row of the given number. -/
def readRows (columns : List (String × Storage)) :
    (row : Nat) → List (Except Csv.Fault (List String)) → Outcome (List Row)
  | _, [] => .ok []
  | _, .error fault :: _ => .error (.csv fault)
  | row, .ok cells :: records => do
    let r ← readCells row columns cells
    let rs ← readRows columns (row + 1) records
    .ok (r :: rs)

def ofSheet (schema : Schema) (sheet : Csv.Sheet) : Outcome Table := do
  let types ← schema.resolveSheet sheet
  let storages := types.map ColumnType.storage
  let rows ← readRows (sheet.header.zip storages) 2 sheet.records
  .ok ⟨sheet.header, storages, rows⟩

/-- The table of a delimited text. -/
def ofText (schema : Schema) (delimiter : UInt8) (text : Bytes) : Outcome Table := do
  ofSheet schema (← (Csv.Sheet.read delimiter text).mapError Fault.csv)

def load (files : FileTree) (path : FilePath) (delimiter : UInt8) (schema : Schema) :
    Outcome Table := do
  ofSheet schema (← files.readSheet path delimiter)

end Table

end Equijoin
