import Equijoin.Schema

/-! # Headers

* `Schema.resolve`: the declared types of the columns of a header. Every column is declared, and
  every declared column is there; the order is free.
* `positions`: the places of key columns, each the first column of its name.
-/

set_option autoImplicit false

namespace Equijoin

namespace Schema

/-- The types of the first columns of a header, up to the first that is not declared. -/
def typesOf (s : Schema) (header : List String) :
    List String → Except SchemaFault (List ColumnType)
  | [] => .ok []
  | name :: names =>
    match s.lookup name with
    | some d => (s.typesOf header names).map (d.type :: ·)
    | none => .error (.undeclared name header)

/-- The declared types of the columns of a header. A column that is not declared is reported before
one that is missing. -/
def resolve (s : Schema) (header : List String) : Except SchemaFault (List ColumnType) := do
  let types ← s.typesOf header header
  match s.declarations.find? fun d => !header.contains d.name with
  | some d => .error (.missing d.name header)
  | none => .ok types

end Schema

/-- The place of a column: the first of its name. -/
def position (columns : List String) (name : String) : Except SchemaFault Nat :=
  match columns.idxOf? name with
  | some i => .ok i
  | none => .error (.keyNotFound name columns)

def positions (columns key : List String) : Except SchemaFault (List Nat) :=
  key.mapM (position columns)

end Equijoin
