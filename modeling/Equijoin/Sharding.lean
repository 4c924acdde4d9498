import Equijoin.Job
import Equijoin.Key
import Equijoin.Loading
import Equijoin.Task

/-! # Sharding

A dataset is split into files by the hash of its keys. Rows with equal keys, from whichever dataset,
come into files of the same index, so that each index can be joined on its own.

* `shardPath`: the file of a shard.
* `routeRecords`: the records of a file with their shards.
* `Dataset.shard`: the shard files of a dataset. A single shard is the file of the dataset itself.
-/

set_option autoImplicit false

namespace Equijoin

variable {σ : Type}

/-- A number with at least five digits. -/
def fiveDigits (n : Nat) : String :=
  String.ofList (List.replicate (5 - (Nat.toDigits 10 n).length) '0' ++ Nat.toDigits 10 n)

def shardPath (scratch : Folder) (dataset shard : Nat) : FilePath :=
  scratch.file s!"input{dataset}-shard{fiveDigits shard}.csv"

/-- The shard files of a dataset. -/
structure ShardSet where
  /-- The file of each shard. -/
  files : List FilePath
  delimiter : UInt8
  /-- The records that have been written, unless the file of the dataset is the only shard. -/
  rows : Option Nat
  deriving DecidableEq, Repr

/-- A key column of a file. -/
structure KeyColumn where
  place : Nat
  name : String
  storage : Storage
  deriving DecidableEq, Repr

def keyColumns (header : List String) (types : List ColumnType) (places : List Nat) :
    List KeyColumn :=
  places.map fun i => ⟨i, (header[i]?).getD "", ((types[i]?).getD .text).storage⟩

def readKey (row : Nat) (columns : List KeyColumn) (cells : List String) : Outcome Key :=
  columns.mapM fun c =>
    (Value.ofCellAt row c.name c.storage ((cells[c.place]?).getD "")).map KeyAtom.ofValue

/-- A record and the shard to which it goes. -/
structure Routed where
  shard : Nat
  cells : List String
  deriving DecidableEq, Repr

/-- The records with their shards, after those that have been routed, the last of these first; the
first record is the row of the given number. -/
def routeRecords (columns : List KeyColumn) (count : Nat) (row : Nat) (earlier : List Routed) :
    List (Except Csv.Fault (List String)) → Task σ (List Routed)
  | [] => Task.succeed earlier.reverse
  | .error fault :: _ => Task.fail (.csv fault)
  | .ok cells :: records => do
    Task.check
    let key ← Task.ofOutcome (readKey row columns cells)
    routeRecords columns count (row + 1) (⟨key.shard count, cells⟩ :: earlier) records

def shardText (delimiter : UInt8) (header : List String) (routed : List Routed) (shard : Nat) :
    Bytes :=
  Csv.writeLine delimiter header ++
    (routed.filter (·.shard == shard)).flatMap fun r => Csv.writeLine delimiter r.cells

def FileTree.writeFiles (files : FileTree) : List (FilePath × Bytes) → Except IoFault FileTree
  | [] => .ok files
  | (path, content) :: rest => do (← files.writeFile path content).writeFiles rest

/-- The files are written. -/
def writeShards (contents : List (FilePath × Bytes)) : Task FileTree Unit :=
  Task.attempt fun files =>
    (files.writeFiles contents).mapError fun fault => .csv (.io fault)

/-- The shard files of a dataset, which has the given index. -/
def Dataset.shard (d : Dataset) (index : Nat) (delimiter : UInt8) (count : Nat)
    (scratch : Folder) : Task FileTree ShardSet :=
  if count ≤ 1 then Task.succeed ⟨[d.path], delimiter, none⟩
  else do
    let files ← Task.read
    let sheet ← Task.ofOutcome (files.readSheet d.path delimiter)
    let types ← Task.ofOutcome (d.schema.resolveSheet sheet)
    let places ← Task.ofOutcome ((positions sheet.header d.key).mapError Fault.schema)
    let shards := List.range count
    let paths := shards.map (shardPath scratch index)
    writeShards (paths.map fun path => (path, Csv.writeLine delimiter sheet.header))
    let routed ← routeRecords (keyColumns sheet.header types places) count 2 [] sheet.records
    writeShards (paths.zip (shards.map (shardText delimiter sheet.header routed)))
    Task.succeed ⟨paths, delimiter, some routed.length⟩

end Equijoin
