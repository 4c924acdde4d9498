import Equijoin.Column
import Equijoin.Csv.Sheet
import Equijoin.Json.Fault
import Equijoin.Number.Reading

/-! # Faults of a join

Every way in which a join can fail, by its cause; the wording is in one place.

* `Fault`: the causes. `Fault.message` words them.
* `Fault.severity`: a failure of files and devices is critical, one of the input is not.
* `Outcome`: a result or a fault.
-/

set_option autoImplicit false

namespace Equijoin

/-- Why a cell does not hold a value of its column. -/
inductive CellFault where
  | whole (fault : WholeFault)
  | float
  | bool
  /-- In the words of the caller. -/
  | stated (text : String)
  deriving DecidableEq, Repr

def CellFault.message : CellFault → String
  | .whole fault => fault.message
  | .float => "invalid float literal"
  | .bool => "expected bool (true/false/1/0/yes/no)"
  | .stated text => text

/-- Why a task cannot be carried out as it is set. -/
inductive ConfigFault where
  | inputCount (count : Nat)
  | emptyKey
  | unevenLists (names : Nat) (group : String) (types : Nat)
  | componentName (name : String)
  | outputCount
  | noKey (input : Nat)
  | malformed (fault : Json.Fault)
  | inFile (path : String) (fault : ConfigFault)
  | noShardInput
  | tablesAndKeys (tables keys : Nat)
  | noTable
  | noPart
  | shardSizeLimit
  | inFlight
  | threads
  | shards
  /-- In the words of the caller. -/
  | stated (text : String)
  deriving DecidableEq, Repr

def ConfigFault.message : ConfigFault → String
  | .inputCount count => s!"join needs [2,10] inputs, got {count}"
  | .emptyKey => "dataset 0 declares an empty join key"
  | .unevenLists names group types =>
    s!"schema lists {names} {group} but {types} {group} type(s)"
  | .componentName name => s!"component_name must be 'psi', got '{name}'"
  | .outputCount => "exactly one output is required"
  | .noKey input => s!"input {input} has no join key"
  | .malformed fault => "invalid task config: " ++ fault.message
  | .inFile path fault => path ++ ": config error: " ++ fault.message
  | .noShardInput => "shard join needs at least one input"
  | .tablesAndKeys tables keys => s!"{tables} table(s) but {keys} join key(s)"
  | .noTable => "join needs at least one table"
  | .noPart => "no shard output to assemble"
  | .shardSizeLimit => "shard_size_limit_bytes must be > 0"
  | .inFlight => "max_in_flight_shards must be > 0"
  | .threads => "num_threads must be > 0 when set"
  | .shards => "shard_count must be > 0 when set"
  | .stated text => text

/-- How names, declarations and columns disagree. -/
inductive SchemaFault where
  | undeclared (column : String) (header : List String)
  | missing (column : String) (header : List String)
  | keyNotFound (column : String) (columns : List String)
  | keyUndeclared (column : String) (dataset : Nat)
  | repeated (column : String) (earlier later : Nat)
  | conflict (column : String) (first second : ColumnType)
  | outputUndeclared (column : String)
  | outputLacks (column : String)
  | unequalParts (shard : Nat) (columns expected : List String)
  /-- In the words of the caller. -/
  | stated (text : String)
  deriving DecidableEq, Repr

def SchemaFault.message : SchemaFault → String
  | .undeclared column header =>
    s!"column '{column}' not found in schema. headers=" ++ Text.quoteList header
  | .missing column header =>
    s!"missing required column '{column}'. headers=" ++ Text.quoteList header
  | .keyNotFound column columns =>
    s!"join key column '{column}' not found. columns=" ++ Text.quoteList columns
  | .keyUndeclared column dataset =>
    s!"join key column '{column}' of dataset {dataset} is not declared in its schema"
  | .repeated column earlier later =>
    s!"column '{column}' is declared by dataset {earlier} and dataset {later}"
  | .conflict column first second =>
    s!"column '{column}' is declared as both " ++ first.name ++ " and " ++ second.name
  | .outputUndeclared column => s!"output column '{column}' not found in schema"
  | .outputLacks column => s!"declared column '{column}' is absent from the output table"
  | .unequalParts shard columns expected =>
    s!"shard {shard} has columns " ++ Text.quoteList columns ++ ", expected " ++
      Text.quoteList expected
  | .stated text => text

/-- Why the size of an input does not yield a shard count. -/
inductive SizeFault where
  | io (fault : IoFault)
  | empty
  /-- In the words of the caller. -/
  | stated (text : String)
  deriving DecidableEq, Repr

def SizeFault.message : SizeFault → String
  | .io fault => fault.message
  | .empty => "file is empty"
  | .stated text => text

/-- Why a join failed. -/
inductive Fault where
  | io (fault : IoFault)
  | csv (fault : Csv.Fault)
  | json (fault : Json.Fault)
  | config (fault : ConfigFault)
  | schema (fault : SchemaFault)
  /-- The key of a dataset is not as long as the key of dataset 0. -/
  | keyArity (dataset expected actual : Nat)
  | size (path : String) (fault : SizeFault)
  /-- A cell does not hold a value of its column; the header is row 1. -/
  | cell (row : Nat) (column raw : String) (fault : CellFault)
  /-- Another task of the same run failed before. -/
  | cancelled
  deriving DecidableEq, Repr

/-- A result or a fault. -/
abbrev Outcome := Except Fault

namespace Fault

def message : Fault → String
  | io fault => "io error: " ++ fault.message
  | csv fault => "csv error: " ++ fault.message
  | json fault => "json error: " ++ fault.message
  | config fault => "config error: " ++ fault.message
  | schema fault => "schema error: " ++ fault.message
  | keyArity dataset expected actual =>
    s!"join arity mismatch: dataset {dataset} has {actual} key column(s), dataset 0 has {expected}"
  | size path fault => s!"cannot compute shard count from '{path}': " ++ fault.message
  | cell row column raw fault =>
    s!"failed to parse value at row {row} column '{column}': " ++ fault.message ++
      s!" (raw='{raw}')"
  | cancelled => "cancelled after an earlier failure in the same run"

end Fault

/-- How grave a failure is. -/
inductive Severity where
  /-- The input or the task is wrong. -/
  | error
  /-- Files or devices fail. -/
  | critical
  deriving DecidableEq, Repr

def Fault.severity : Fault → Severity
  | .io _ | .csv (.io _) | .json (.io _) | .size _ _ => .critical
  | _ => .error

end Equijoin
