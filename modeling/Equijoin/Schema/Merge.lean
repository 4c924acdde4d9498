import Equijoin.Schema

/-! # The schema of a joined table

* `Schema.merge`: the schemas of all inputs as one, group by group in the order of the inputs. A
  name may be declared again with a type of the same storage.
* `Descriptor`: the schema of an output, with the names of storages as types.
* `Schema.reconcile`: the descriptor of the columns that an output has.
-/

set_option autoImplicit false

namespace Equijoin

namespace Schema

/-- The columns of a schema followed by those of another, in every group. -/
def append (s t : Schema) : Schema where
  ids := s.ids ++ t.ids
  features := s.features ++ t.features
  labels := s.labels ++ t.labels
  idTypes := s.idTypes ++ t.idTypes
  featureTypes := s.featureTypes ++ t.featureTypes
  labelTypes := s.labelTypes ++ t.labelTypes

/-- The conflict of a declaration with an earlier one of its name. -/
def conflictWith? (s : Schema) (d : Declaration) : Option SchemaFault :=
  match s.lookup d.name with
  | some earlier =>
    if earlier.type.storage = d.type.storage then none
    else some (.conflict d.name earlier.type d.type)
  | none => none

/-- A schema extended by another, unless a declaration of the latter is in conflict. -/
def extend (s t : Schema) : Except SchemaFault Schema :=
  match t.declarations.findSome? s.conflictWith? with
  | some fault => .error fault
  | none => .ok (s.append t)

def merge (schemas : List Schema) : Except SchemaFault Schema :=
  schemas.foldlM extend empty

end Schema

/-! ## Descriptors -/

/-- Names and type names of the columns of an output, by group. -/
structure Descriptor where
  ids : List String
  features : List String
  labels : List String
  idTypes : List String
  featureTypes : List String
  labelTypes : List String
  deriving DecidableEq, Repr, Inhabited

namespace Descriptor

def empty : Descriptor := ⟨[], [], [], [], [], []⟩

/-- A descriptor with one more column at the end of the group of its declaration. -/
def add (out : Descriptor) (d : Declaration) : Descriptor :=
  let type := d.type.storage.name
  match d.group with
  | .id => { out with ids := out.ids ++ [d.name], idTypes := out.idTypes ++ [type] }
  | .feature =>
    { out with features := out.features ++ [d.name], featureTypes := out.featureTypes ++ [type] }
  | .label => { out with labels := out.labels ++ [d.name], labelTypes := out.labelTypes ++ [type] }

end Descriptor

namespace Schema

def declarationsOf (s : Schema) (header : List String) : Except SchemaFault (List Declaration) :=
  header.mapM fun column =>
    match s.lookup column with
    | some d => .ok d
    | none => .error (.outputUndeclared column)

/-- The descriptor of an output with the given header: every column is declared, and every declared
column is there. -/
def reconcile (s : Schema) (header : List String) : Except SchemaFault Descriptor := do
  let found ← s.declarationsOf header
  match s.declarations.find? fun d => !header.contains d.name with
  | some d => .error (.outputLacks d.name)
  | none => .ok (found.foldl Descriptor.add Descriptor.empty)

end Schema

end Equijoin
