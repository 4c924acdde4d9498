import Equijoin.Fault

/-! # Schemas

A schema declares columns in three groups, each a list of names beside a list of types.

* `Schema.declarations`: the declared columns, group by group; a name without a type, or a type
  without a name, declares nothing.
* `Schema.lookup`: the first declaration of a name.
* `Schema.setType?`: the schema with another type for a name.
* `Schema.check`: in every group there are as many types as names.
-/

set_option autoImplicit false

namespace Equijoin

/-- Declared names and types of the columns of a table, by group. -/
structure Schema where
  ids : List String
  features : List String
  labels : List String
  idTypes : List ColumnType
  featureTypes : List ColumnType
  labelTypes : List ColumnType
  deriving DecidableEq, Repr, Inhabited

/-- One declared column. -/
structure Declaration where
  name : String
  type : ColumnType
  group : ColumnGroup
  deriving DecidableEq, Repr

namespace Schema

def empty : Schema := ⟨[], [], [], [], [], []⟩

def declare (group : ColumnGroup) (names : List String) (types : List ColumnType) :
    List Declaration :=
  (names.zip types).map fun p => ⟨p.1, p.2, group⟩

/-- The declared columns: identifiers, then features, then labels. -/
def declarations (s : Schema) : List Declaration :=
  declare .id s.ids s.idTypes ++ declare .feature s.features s.featureTypes ++
    declare .label s.labels s.labelTypes

def lookup (s : Schema) (name : String) : Option Declaration :=
  s.declarations.find? (·.name == name)

/-- Types with another one at a position, if there is one. -/
def replaceType? (types : List ColumnType) (i : Nat) (type : ColumnType) :
    Option (List ColumnType) :=
  if i < types.length then some (types.set i type) else none

/-- The schema with another type for the first column of a name. Groups are searched in order, and
the first group that lists the name decides: if it has no type there, nothing is changed. -/
def setType? (s : Schema) (name : String) (type : ColumnType) : Option Schema :=
  match s.ids.idxOf? name with
  | some i => (replaceType? s.idTypes i type).map fun ts => { s with idTypes := ts }
  | none =>
    match s.features.idxOf? name with
    | some i => (replaceType? s.featureTypes i type).map fun ts => { s with featureTypes := ts }
    | none =>
      match s.labels.idxOf? name with
      | some i => (replaceType? s.labelTypes i type).map fun ts => { s with labelTypes := ts }
      | none => none

/-- The schema with another type for a name, if it lists the name. -/
def setType (s : Schema) (name : String) (type : ColumnType) : Schema :=
  (s.setType? name type).getD s

/-- The fault of a group whose lists differ in length. -/
def unevenGroup? (group : String) (names : List String) (types : List ColumnType) :
    Option ConfigFault :=
  if names.length = types.length then none
  else some (.unevenLists names.length group types.length)

def fault? (s : Schema) : Option ConfigFault :=
  unevenGroup? "ids" s.ids s.idTypes <|> unevenGroup? "features" s.features s.featureTypes <|>
    unevenGroup? "labels" s.labels s.labelTypes

/-- Every group has as many types as names. -/
def check (s : Schema) : Outcome Unit :=
  match s.fault? with
  | some fault => .error (.config fault)
  | none => .ok ()

end Schema

end Equijoin
