/-! # Column types

* `ColumnType`: the type that a schema declares for a column.
* `Storage`: how the cells of a column are held. Every declared type has one storage.
* `ColumnGroup`: the part of a schema in which a column is declared.
-/

set_option autoImplicit false

namespace Equijoin

/-- How the cells of a column are held. -/
inductive Storage where
  | int64
  | float64
  | bool
  | text
  deriving DecidableEq, Repr, Inhabited

/-- The name of a storage in an output schema. -/
def Storage.name : Storage → String
  | .int64 => "int64"
  | .float64 => "float64"
  | .bool => "bool"
  | .text => "str"

/-- The type that a schema declares for a column. -/
inductive ColumnType where
  | int8 | int16 | int32 | int64
  | uint8 | uint16 | uint32 | uint64
  /-- An integer of no stated size. -/
  | int
  | float16 | float32 | float64
  /-- A floating point number of no stated size. -/
  | float
  | bool
  | text
  deriving DecidableEq, Repr, Inhabited

namespace ColumnType

/-- The name of a type in a schema. -/
def name : ColumnType → String
  | int8 => "int8"
  | int16 => "int16"
  | int32 => "int32"
  | int64 => "int64"
  | uint8 => "uint8"
  | uint16 => "uint16"
  | uint32 => "uint32"
  | uint64 => "uint64"
  | int => "int"
  | float16 => "float16"
  | float32 => "float32"
  | float64 => "float64"
  | float => "float"
  | bool => "bool"
  | text => "str"

def all : List ColumnType :=
  [int8, int16, int32, int64, uint8, uint16, uint32, uint64, int, float16, float32, float64, float,
    bool, text]

def ofName? (s : String) : Option ColumnType :=
  all.find? (·.name == s)

/-- The storage of a type. Sizes and signs are not kept apart. -/
def storage : ColumnType → Storage
  | int8 | int16 | int32 | int64 | uint8 | uint16 | uint32 | uint64 | int => .int64
  | float16 | float32 | float64 | float => .float64
  | bool => .bool
  | text => .text

theorem ofName?_name (t : ColumnType) : ofName? t.name = some t := by
  cases t <;> rfl

end ColumnType

/-- The part of a schema in which a column is declared. -/
inductive ColumnGroup where
  | id
  | feature
  | label
  deriving DecidableEq, Repr

end Equijoin
