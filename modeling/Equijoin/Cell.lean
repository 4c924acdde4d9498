import Equijoin.Fault
import Equijoin.Text.Blank
import Equijoin.Value

/-! # Cells

The text of a cell becomes a value at the storage of its column. An empty cell is a missing value.
Numbers and truth values may stand between blanks, and a blank cell of such a column is a missing
value too; text is kept as it is.

* `Value.ofCell`: the value of a cell.
* `Value.ofCellAt`: the same, with faults that name the place of the cell.
-/

set_option autoImplicit false

namespace Equijoin

/-- A truth value, in upper or lower case. -/
def readBool? (s : String) : Option Bool :=
  let word := s.map Char.toLower
  if ["true", "t", "1", "yes", "y"].contains word then some true
  else if ["false", "f", "0", "no", "n"].contains word then some false
  else none

namespace Value

/-- The value of a text that is not blank. -/
def ofText (storage : Storage) (raw : String) : Except CellFault Value :=
  match storage with
  | .text => .ok (.text raw)
  | .int64 =>
    match Whole.read (Text.trim raw) with
    | .ok v => .ok (.int v)
    | .error fault => .error (.whole fault)
  | .float64 =>
    match Binary64.read? (Text.trim raw) with
    | some x => .ok (.float x)
    | none => .error .float
  | .bool =>
    match readBool? (Text.trim raw) with
    | some b => .ok (.bool b)
    | none => .error .bool

def ofCell (storage : Storage) (raw : String) : Except CellFault Value :=
  if raw = "" then .ok .null
  else if storage ≠ .text ∧ Text.trim raw = "" then .ok .null
  else ofText storage raw

def ofCellAt (row : Nat) (column : String) (storage : Storage) (raw : String) : Outcome Value :=
  (ofCell storage raw).mapError (Fault.cell row column raw)

/-- A value that was read has the storage that it was read at. -/
theorem has_of_ofCell {storage : Storage} {raw : String} {v : Value}
    (h : ofCell storage raw = .ok v) : v.Has storage := by
  unfold ofCell at h
  split at h
  · cases h; trivial
  · split at h
    · cases h; trivial
    · cases storage <;> simp only [ofText] at h <;> (try split at h) <;> cases h <;> rfl

end Value

end Equijoin
