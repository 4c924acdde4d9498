import Equijoin.Files.FileTree
import Equijoin.Job
import Equijoin.Schema.Notation

/-! # Task files

A task file describes a job as a JSON object.

* `TaskFile`: what a task file says. Keys stand with the inputs, or in a list for all inputs.
* `TaskFile.parse`: the task of a text. `TaskFile.load`: the task of a file.
* `TaskFile.toJob`: the job of a task. An input without a key of its own takes the one of its index
  from the list for all inputs.
-/

set_option autoImplicit false

namespace Equijoin

open Json (Reader NamedField)

/-- An input of a task. -/
structure TaskInput where
  dataPath : String
  schema : Schema
  key : Option (List String)
  deriving DecidableEq, Repr

/-- What a task file says. -/
structure TaskFile where
  componentName : Option String
  /-- Keys for all inputs, by index. -/
  keys : Option (List (List String))
  inputs : List TaskInput
  outputs : List Output
  deriving DecidableEq, Repr

/-! ## Reading -/

def Json.path : Reader String :=
  Json.text "path string"

def TaskFile.keyListReader : Reader (List String) := fun cs =>
  let field : NamedField (Option (List String)) :=
    { name := "keys", spelling := none, required := true, given := Option.isSome,
      read := fun _ cs => (Json.texts cs).map fun (v, cs) => (some v, cs) }
  (Json.record "KeyList" [field] none cs).map fun (v, cs) => (v.getD [], cs)

def TaskFile.paramsReader : Reader (List (List String)) := fun cs =>
  let field : NamedField (Option (List (List String))) :=
    { name := "psi_keys", spelling := some "psiKeys", required := false, given := Option.isSome,
      read := fun _ cs => (Json.list keyListReader cs).map fun (v, cs) => (some v, cs) }
  (Json.record "TaskParams" [field] none cs).map fun (v, cs) => (v.getD [], cs)

/-- The fields of an input that have been read. -/
structure TaskInput.Partial where
  dataPath : Option String
  schema : Option Schema
  key : Option (Option (List String))

def TaskInput.reader : Reader TaskInput := fun cs =>
  let fields : List (NamedField Partial) :=
    [{ name := "data_path", spelling := some "dataPath", required := true,
       given := (·.dataPath.isSome),
       read := fun s cs => (Json.path cs).map fun (v, cs) => ({ s with dataPath := some v }, cs) },
     { name := "schema", spelling := none, required := true, given := (·.schema.isSome),
       read := fun s cs =>
         (Schema.reader cs).map fun (v, cs) => ({ s with schema := some v }, cs) },
     { name := "key", spelling := none, required := false, given := (·.key.isSome),
       read := fun s cs =>
         (Json.optional Json.texts cs).map fun (v, cs) => ({ s with key := some v }, cs) }]
  (Json.record "InputConfig" fields ⟨none, none, none⟩ cs).map fun (s, cs) =>
    (⟨s.dataPath.getD "", s.schema.getD .empty, s.key.getD none⟩, cs)

/-- The fields of an output that have been read. -/
structure Output.Partial where
  dataPath : Option String
  schemaPath : Option String

def Output.reader : Reader Output := fun cs =>
  let fields : List (NamedField Partial) :=
    [{ name := "data_path", spelling := some "dataPath", required := true,
       given := (·.dataPath.isSome),
       read := fun s cs => (Json.path cs).map fun (v, cs) => ({ s with dataPath := some v }, cs) },
     { name := "data_schema_path", spelling := some "dataSchemaPath", required := true,
       given := (·.schemaPath.isSome),
       read := fun s cs =>
         (Json.path cs).map fun (v, cs) => ({ s with schemaPath := some v }, cs) }]
  (Json.record "OutputConfig" fields ⟨none, none⟩ cs).map fun (s, cs) =>
    (⟨s.dataPath.getD "", s.schemaPath.getD ""⟩, cs)

namespace TaskFile

/-- The fields of a task that have been read. -/
structure Partial where
  componentName : Option (Option String)
  keys : Option (Option (List (List String)))
  inputs : Option (List TaskInput)
  outputs : Option (List Output)

def reader : Reader TaskFile := fun cs =>
  let fields : List (NamedField Partial) :=
    [{ name := "component_name", spelling := some "componentName", required := false,
       given := (·.componentName.isSome),
       read := fun s cs =>
         (Json.optional (Json.text "a string") cs).map fun (v, cs) =>
           ({ s with componentName := some v }, cs) },
     { name := "params", spelling := none, required := false, given := (·.keys.isSome),
       read := fun s cs =>
         (Json.optional paramsReader cs).map fun (v, cs) => ({ s with keys := some v }, cs) },
     { name := "inputs", spelling := none, required := true, given := (·.inputs.isSome),
       read := fun s cs =>
         (Json.list TaskInput.reader cs).map fun (v, cs) => ({ s with inputs := some v }, cs) },
     { name := "outputs", spelling := none, required := true, given := (·.outputs.isSome),
       read := fun s cs =>
         (Json.list Output.reader cs).map fun (v, cs) => ({ s with outputs := some v }, cs) }]
  (Json.record "TaskConfig" fields ⟨none, none, none, none⟩ cs).map fun (s, cs) =>
    (⟨s.componentName.getD none, s.keys.getD none, s.inputs.getD [], s.outputs.getD []⟩, cs)

def parse (s : String) : Except ConfigFault TaskFile :=
  (Json.parse reader s).mapError ConfigFault.malformed

def load (files : FileTree) (path : String) : Outcome TaskFile := do
  let bytes ← (files.read path).mapError Fault.io
  match Utf8.decode bytes with
  | .error _ => .error (.io .invalidData)
  | .ok s => (parse s).mapError fun fault => .config (.inFile path fault)

/-! ## Jobs -/

/-- The component that a task may name. -/
def component : String := "psi"

/-- The datasets of inputs whose keys may be missing; the first input has the index `i`. -/
def datasetsFrom (i : Nat) :
    List TaskInput → List (List String) → Except ConfigFault (List Dataset)
  | [], _ => .ok []
  | input :: inputs, keys =>
    match input.key <|> keys.head? with
    | none => .error (.noKey i)
    | some key =>
      (datasetsFrom (i + 1) inputs keys.tail).map
        (⟨input.dataPath, input.schema, key, none⟩ :: ·)

/-- The inputs and the output of a task, with their keys. -/
def toUncheckedJob (task : TaskFile) : Except ConfigFault Job := do
  match task.componentName with
  | some name => if name != component then throw (.componentName name)
  | none => pure ()
  match task.outputs with
  | [output] => .ok ⟨← datasetsFrom 0 task.inputs (task.keys.getD []), output⟩
  | _ => .error .outputCount

def toJob (task : TaskFile) : Outcome Job := do
  let job ← task.toUncheckedJob.mapError Fault.config
  job.check
  .ok job

end TaskFile

end Equijoin
