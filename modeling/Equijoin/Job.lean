import Equijoin.Schema

/-! # Jobs

A job names the inputs of a join, their schemas and keys, and the two files of its output.

* `Dataset`, `Output`, `Job`: what a job consists of.
* `Job.fault?`: what is wrong with a job, as far as no file has to be read. Two inputs may declare
  a column of the same name only if it is a key column at the same place in the keys of dataset 0
  and of the later input; the output then holds it once.
* `Job.check`: the same as an outcome.
-/

set_option autoImplicit false

namespace Equijoin

/-- One input: a file with a header, its schema and its join key. -/
structure Dataset where
  path : String
  schema : Schema
  key : List String
  /-- The delimiter of the file, if it is not to be found out. -/
  delimiter : Option UInt8
  deriving DecidableEq, Repr

/-- Where the joined table and its descriptor go. -/
structure Output where
  dataPath : String
  schemaPath : String
  deriving DecidableEq, Repr

/-- Inputs and output of a join. -/
structure Job where
  datasets : List Dataset
  output : Output
  deriving DecidableEq, Repr

/-- The first key that is not as long as the key of dataset 0. -/
def unequalKeys? (keys : List (List String)) : Option Fault :=
  match keys with
  | [] => none
  | first :: _ =>
    keys.zipIdx.findSome? fun (key, i) =>
      if key.length = first.length then none
      else some (.keyArity i first.length key.length)

namespace Job

def arity (job : Job) : Nat :=
  match job.datasets with
  | [] => 0
  | first :: _ => first.key.length

/-- The number of inputs is between 2 and 10. -/
def countFault? (job : Job) : Option Fault :=
  let n := job.datasets.length
  if 2 ≤ n && n ≤ 10 then none else some (.config (.inputCount n))

/-- The key of dataset 0 is not empty. -/
def emptyKeyFault? (job : Job) : Option Fault :=
  if job.arity = 0 then some (.config .emptyKey) else none

/-- Every key is as long as the key of dataset 0. -/
def arityFault? (job : Job) : Option Fault :=
  unequalKeys? (job.datasets.map Dataset.key)

/-- The schema of a dataset is even, and declares its key columns. -/
def declarationFault? (d : Dataset) (i : Nat) : Option Fault :=
  d.schema.fault?.map Fault.config <|>
    d.key.findSome? fun column =>
      if (d.schema.lookup column).isSome then none else some (.schema (.keyUndeclared column i))

/-- A column is a key column named like the key column of dataset 0 at the same place. -/
def isShared (key₀ key : List String) (name : String) : Bool :=
  (key.zip key₀).any fun p => p.1 == name && p.2 == name

/-- Columns of the dataset of index `i` that an earlier dataset declares too. -/
def clashFault? (earlier : List Dataset) (key₀ : List String) (d : Dataset) (i : Nat) :
    Option Fault :=
  d.schema.declarations.findSome? fun c =>
    if isShared key₀ d.key c.name then none
    else
      (earlier.findIdx? fun e => (e.schema.lookup c.name).isSome).map fun j =>
        .schema (.repeated c.name j i)

def fault? (job : Job) : Option Fault :=
  job.countFault? <|> job.emptyKeyFault? <|> job.arityFault? <|>
    (job.datasets.zipIdx.findSome? fun (d, i) => declarationFault? d i) <|>
    match job.datasets with
    | [] => none
    | first :: rest =>
      rest.zipIdx.findSome? fun (d, k) =>
        clashFault? (job.datasets.take (k + 1)) first.key d (k + 1)

/-- A job with which nothing is wrong, as far as no file has to be read. -/
def check (job : Job) : Outcome Unit :=
  match job.fault? with
  | some fault => .error fault
  | none => .ok ()

end Job

end Equijoin
