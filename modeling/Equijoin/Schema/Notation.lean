import Equijoin.Json.Reader
import Equijoin.Json.Writer
import Equijoin.Schema.Merge

/-! # Schemas as JSON

* `Schema.reader`: a declared schema. Every list may be left out, and the names of the lists of
  types may be spelled in two ways.
* `Descriptor.reader`: the schema of an output. No list may be left out.
* `Schema.textLists`, `Descriptor.textLists`: the fields of both, in the order in which they are
  written.
-/

set_option autoImplicit false

namespace Equijoin

open Json (Reader NamedField)

def Json.texts : Reader (List String) :=
  Json.list (Json.text "a string")

def ColumnType.reader : Reader ColumnType := fun cs => do
  let (name, cs) ← Json.text "a string" cs
  match ofName? name with
  | some t => .ok (t, cs)
  | none => .error (.unknownType name)

namespace Schema

/-- The lists of a schema that have been read. -/
structure Partial where
  ids : Option (List String)
  features : Option (List String)
  labels : Option (List String)
  idTypes : Option (List ColumnType)
  featureTypes : Option (List ColumnType)
  labelTypes : Option (List ColumnType)

def Partial.none : Partial := ⟨.none, .none, .none, .none, .none, .none⟩

def fields : List (NamedField Partial) :=
  [{ name := "ids", spelling := none, required := false, given := (·.ids.isSome),
     read := fun s cs => (Json.texts cs).map fun (v, cs) => ({ s with ids := some v }, cs) },
   { name := "features", spelling := none, required := false, given := (·.features.isSome),
     read := fun s cs => (Json.texts cs).map fun (v, cs) => ({ s with features := some v }, cs) },
   { name := "labels", spelling := none, required := false, given := (·.labels.isSome),
     read := fun s cs => (Json.texts cs).map fun (v, cs) => ({ s with labels := some v }, cs) },
   { name := "idTypes", spelling := some "id_types", required := false,
     given := (·.idTypes.isSome),
     read := fun s cs =>
       (Json.list ColumnType.reader cs).map fun (v, cs) => ({ s with idTypes := some v }, cs) },
   { name := "featureTypes", spelling := some "feature_types", required := false,
     given := (·.featureTypes.isSome),
     read := fun s cs =>
       (Json.list ColumnType.reader cs).map fun (v, cs) =>
         ({ s with featureTypes := some v }, cs) },
   { name := "labelTypes", spelling := some "label_types", required := false,
     given := (·.labelTypes.isSome),
     read := fun s cs =>
       (Json.list ColumnType.reader cs).map fun (v, cs) => ({ s with labelTypes := some v }, cs) }]

/-- The schema of the lists that have been read; the others are empty. -/
def Partial.complete (p : Partial) : Schema where
  ids := p.ids.getD []
  features := p.features.getD []
  labels := p.labels.getD []
  idTypes := p.idTypes.getD []
  featureTypes := p.featureTypes.getD []
  labelTypes := p.labelTypes.getD []

def reader : Reader Schema := fun cs =>
  (Json.record "TableSchema" fields .none cs).map fun (p, cs) => (p.complete, cs)

def parse (s : String) : Outcome Schema :=
  (Json.parse reader s).mapError Fault.json

/-- The lists of a schema, in the order in which they are written. -/
def textLists (s : Schema) : Json.TextLists :=
  [("ids", s.ids), ("features", s.features), ("labels", s.labels),
   ("idTypes", s.idTypes.map ColumnType.name),
   ("featureTypes", s.featureTypes.map ColumnType.name),
   ("labelTypes", s.labelTypes.map ColumnType.name)]

def write (s : Schema) : String :=
  String.ofList (Json.writeCompact s.textLists)

end Schema

namespace Descriptor

/-- The lists of a descriptor that have been read. -/
structure Partial where
  ids : Option (List String)
  features : Option (List String)
  labels : Option (List String)
  idTypes : Option (List String)
  featureTypes : Option (List String)
  labelTypes : Option (List String)

def Partial.none : Partial := ⟨.none, .none, .none, .none, .none, .none⟩

def listField (name : String) (get : Partial → Option (List String))
    (set : Partial → List String → Partial) : NamedField Partial where
  name := name
  spelling := none
  required := true
  given := fun s => (get s).isSome
  read := fun s cs => (Json.texts cs).map fun (v, cs) => (set s v, cs)

def fields : List (NamedField Partial) :=
  [listField "ids" (·.ids) fun s v => { s with ids := some v },
   listField "features" (·.features) fun s v => { s with features := some v },
   listField "labels" (·.labels) fun s v => { s with labels := some v },
   listField "idTypes" (·.idTypes) fun s v => { s with idTypes := some v },
   listField "featureTypes" (·.featureTypes) fun s v => { s with featureTypes := some v },
   listField "labelTypes" (·.labelTypes) fun s v => { s with labelTypes := some v }]

def Partial.complete (p : Partial) : Descriptor where
  ids := p.ids.getD []
  features := p.features.getD []
  labels := p.labels.getD []
  idTypes := p.idTypes.getD []
  featureTypes := p.featureTypes.getD []
  labelTypes := p.labelTypes.getD []

def reader : Reader Descriptor := fun cs =>
  (Json.record "OutputSchema" fields .none cs).map fun (p, cs) => (p.complete, cs)

def parse (s : String) : Outcome Descriptor :=
  (Json.parse reader s).mapError Fault.json

/-- The lists of a descriptor, in the order in which they are written. -/
def textLists (d : Descriptor) : Json.TextLists :=
  [("ids", d.ids), ("features", d.features), ("labels", d.labels), ("idTypes", d.idTypes),
   ("featureTypes", d.featureTypes), ("labelTypes", d.labelTypes)]

def write (d : Descriptor) : String :=
  String.ofList (Json.writePretty d.textLists)

end Descriptor

end Equijoin
