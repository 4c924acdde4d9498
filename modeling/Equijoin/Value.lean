import Equijoin.Column
import Equijoin.Number.Shortest

/-! # Values and tables

* `Value`: the content of a cell, read at the storage of its column. `Value.render` writes it.
* `Table`: names, storages and rows. A table is `Rectangular` when every row is as wide as the
  header, and `WellTyped` when every value is missing or of the storage of its column.
-/

set_option autoImplicit false

namespace Equijoin

/-- The content of a cell. -/
inductive Value where
  /-- Nothing. -/
  | null
  | int (v : Int64)
  | float (x : Binary64)
  | bool (b : Bool)
  | text (s : String)
  deriving DecidableEq, Repr, Inhabited

/-- The cell of a value. A missing value and a NaN are empty cells; a float always has a point or a
power of ten. -/
def Value.render : Value → String
  | .null => ""
  | .int v => toString v.toInt
  | .float x => if x.isNaN then "" else x.text cellLayout
  | .bool b => if b then "true" else "false"
  | .text s => s

def Value.Has (storage : Storage) : Value → Prop
  | .null => True
  | .int _ => storage = .int64
  | .float _ => storage = .float64
  | .bool _ => storage = .bool
  | .text _ => storage = .text

/-- The values of one line of a table. -/
abbrev Row := List Value

/-- Named and typed columns, and rows. -/
structure Table where
  columns : List String
  types : List Storage
  rows : List Row
  deriving DecidableEq, Repr, Inhabited

namespace Table

def Rectangular (t : Table) : Prop :=
  t.types.length = t.columns.length ∧ ∀ row ∈ t.rows, row.length = t.columns.length

/-- Every value is missing or of the storage of its column. -/
def WellTyped (t : Table) : Prop :=
  ∀ row ∈ t.rows, ∀ p ∈ row.zip t.types, p.1.Has p.2

def cells (t : Table) : List (List String) :=
  t.rows.map fun row => row.map Value.render

end Table

end Equijoin
