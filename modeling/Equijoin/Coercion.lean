import Equijoin.Job
import Equijoin.Loading
import Equijoin.Task

/-! # Coercion of text keys

A key column that is declared as text, but holds nothing but numbers and blanks, becomes a column of
floats. Only then do numbers match that are written differently.

* `Candidate`: a key column that may still be promoted.
* `scanRecords`: the candidates that are left at the end of a file. The scan ends with the last one.
* `Dataset.coerce`: the schema of a dataset after coercion, and what was done.
-/

set_option autoImplicit false

namespace Equijoin

variable {σ : Type}

/-- A key column that may be promoted. -/
structure Candidate where
  place : Nat
  name : String
  deriving DecidableEq, Repr

/-- What coercion has done to a dataset. -/
structure Coercion where
  /-- The columns that are floats now. -/
  promoted : List String
  /-- The records that have been read. -/
  rowsScanned : Nat
  deriving DecidableEq, Repr

/-- A list without the elements that equal the one before them. -/
def dropRepeats {α : Type} [DecidableEq α] : List α → List α
  | [] => []
  | [a] => [a]
  | a :: b :: rest => if a = b then dropRepeats (b :: rest) else a :: dropRepeats (b :: rest)

def candidates (types : List ColumnType) (places : List Nat) (key : List String) :
    List Candidate :=
  dropRepeats (((places.zip key).filter fun p => types[p.1]? = some .text).map
    fun p => ⟨p.1, p.2⟩)

/-- A cell is blank or a number. -/
def isNumeric (raw : String) : Bool :=
  Text.trim raw = "" || (Binary64.read? (Text.trim raw)).isSome

def Candidate.survives (cells : List String) (c : Candidate) : Bool :=
  isNumeric ((cells[c.place]?).getD "")

/-- The candidates that survive the records, after some rows. -/
def scanRecords (rows : Nat) :
    List Candidate → List (Except Csv.Fault (List String)) → Task σ Coercion
  | cs, [] => Task.succeed ⟨cs.map Candidate.name, rows⟩
  | [], _ :: _ => Task.succeed ⟨[], rows⟩
  | _ :: _, .error fault :: _ => Task.fail (.csv fault)
  | c :: cs, .ok cells :: records => do
    Task.check
    scanRecords (rows + 1) ((c :: cs).filter (Candidate.survives cells)) records

def Schema.promote (s : Schema) (names : List String) : Schema :=
  names.foldl (fun s name => s.setType name .float64) s

def Dataset.coercion (d : Dataset) (delimiter : UInt8) : Task FileTree Coercion := do
  let files ← Task.read
  let sheet ← Task.ofOutcome (files.readSheet d.path delimiter)
  let types ← Task.ofOutcome (d.schema.resolveSheet sheet)
  let places ← Task.ofOutcome ((positions sheet.header d.key).mapError Fault.schema)
  scanRecords 0 (candidates types places d.key) sheet.records

def Dataset.coerce (d : Dataset) (delimiter : UInt8) : Task FileTree (Dataset × Coercion) := do
  let done ← d.coercion delimiter
  Task.succeed ({ d with schema := d.schema.promote done.promoted }, done)

end Equijoin
