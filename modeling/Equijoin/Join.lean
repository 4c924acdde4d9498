import Std.Data.HashMap
import Equijoin.Job
import Equijoin.Key
import Equijoin.Loading
import Equijoin.Task

/-! # Joining tables

Tables are joined in their order: each one in turn is matched with the rows of the result so far, on
the key of the first table.

* `Matches`: the rows of a table by their keys.
* `Table.join`: the join of two tables. The rows keep the order of the left table and, for each of
  its rows, of the right one; a right key column that has the name of its left counterpart is not
  repeated.
* `joinTables`: the join of all tables.
* `joinShard`: the same for the files of one shard, loaded one after another.
-/

set_option autoImplicit false

namespace Equijoin

/-! ## Two tables -/

/-- The rows of each key, in their order. -/
abbrev Matches := Std.HashMap Key (List Row)

/-- The matches with one more row in front, unless its key matches nothing. -/
def Matches.add (places : List Nat) (row : Row) (m : Matches) : Matches :=
  let key := Key.ofRow row places
  if key.isJoinable then m.insert key (row :: m.getD key []) else m

def Matches.ofRows (places : List Nat) (rows : List Row) : Matches :=
  rows.foldr (Matches.add places) ∅

/-- The places of the right columns that a join keeps. -/
def keptPlaces (left right : List String) (leftKey rightKey : List Nat) : List Nat :=
  (List.range right.length).filter fun j =>
    !(rightKey.zip leftKey).any fun (r, l) => r == j && right[r]? == left[l]?

/-- The elements of a list at some places. -/
def pick {α : Type} (places : List Nat) (xs : List α) : List α :=
  places.filterMap (xs[·]?)

/-- The join of two tables on the keys at some places. -/
def Table.join (left right : Table) (leftKey rightKey : List Nat) : Table :=
  let kept := keptPlaces left.columns right.columns leftKey rightKey
  let found := Matches.ofRows rightKey right.rows
  { columns := left.columns ++ pick kept right.columns
    types := left.types ++ pick kept right.types
    rows := left.rows.flatMap fun row =>
      (found.getD (Key.ofRow row leftKey) []).map fun other => row ++ pick kept other }

/-! ## All tables -/

def Table.positions (t : Table) (key : List String) : Outcome (List Nat) :=
  (Equijoin.positions t.columns key).mapError Fault.schema

/-- A table joined with others on the key at some places. -/
def Table.joinAll (leftKey : List Nat) : Table → List (Table × List String) → Outcome Table
  | left, [] => .ok left
  | left, (right, key) :: rest => do
    let rightKey ← right.positions key
    joinAll leftKey (left.join right leftKey rightKey) rest

def joinTables (tables : List Table) (keys : List (List String)) : Outcome Table := do
  if tables.length ≠ keys.length then
    throw (.config (.tablesAndKeys tables.length keys.length))
  if let some fault := unequalKeys? keys then throw fault
  match tables.zip keys with
  | [] => throw (.config .noTable)
  | (first, key) :: rest => first.joinAll (← first.positions key) rest

/-! ## The files of a shard -/

/-- The part of a dataset in one shard. -/
structure ShardInput where
  path : FilePath
  delimiter : UInt8
  schema : Schema
  key : List String
  deriving DecidableEq, Repr

def ShardInput.load (input : ShardInput) : Task FileTree (Table × List Nat) := do
  let files ← Task.read
  let table ← Task.ofOutcome (Table.load files input.path input.delimiter input.schema)
  let places ← Task.ofOutcome (table.positions input.key)
  Task.succeed (table, places)

def joinParts (leftKey : List Nat) : Table → List ShardInput → Task FileTree Table
  | left, [] => Task.succeed left
  | left, input :: rest => do
    Task.check
    let (right, rightKey) ← input.load
    joinParts leftKey (left.join right leftKey rightKey) rest

def joinShard (inputs : List ShardInput) : Task FileTree Table :=
  match inputs with
  | [] => Task.fail (.config .noShardInput)
  | first :: rest =>
    match unequalKeys? (inputs.map ShardInput.key) with
    | some fault => Task.fail fault
    | none => do
      let (left, leftKey) ← first.load
      joinParts leftKey left rest

end Equijoin
