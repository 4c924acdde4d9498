import Equijoin.Files.FileTree
import Equijoin.Fault

/-! # Options of a run

* `Options`: what a caller may choose. `Options.check` refuses zeros.
* `shardCount`: the number of shards that the sizes of the inputs ask for.
-/

set_option autoImplicit false

namespace Equijoin

/-- What a caller may choose. -/
structure Options where
  /-- The size that no shard of the largest input should exceed by much, in bytes. -/
  shardSizeLimit : Nat
  /-- The number of shards, if it is not to be found from the sizes. -/
  shardCount : Option Nat
  /-- The number of threads, if it is not left to the machine. -/
  threads : Option Nat
  /-- The number of shards that may be joined at a time. -/
  maxInFlight : Nat
  /-- The directory for scratch files, if it is not the system's. -/
  workDir : Option String
  deriving DecidableEq, Repr

namespace Options

/-- The size limit unless another is chosen: 200 MiB. -/
def defaultShardSizeLimit : Nat := 200 * 1024 * 1024

def standard (processors : Nat) : Options :=
  ⟨defaultShardSizeLimit, none, some processors, max processors 1, none⟩

def fault? (o : Options) : Option ConfigFault :=
  if o.shardSizeLimit = 0 then some .shardSizeLimit
  else if o.maxInFlight = 0 then some .inFlight
  else if o.threads = some 0 then some .threads
  else if o.shardCount = some 0 then some .shards
  else none

/-- No option is zero. -/
def check (o : Options) : Outcome Unit :=
  match o.fault? with
  | some fault => .error (.config fault)
  | none => .ok ()

/-- The system's directory for temporary files. -/
def systemTemporary : String := "/tmp"

def scratchParent (o : Options) : String :=
  o.workDir.getD systemTemporary

end Options

/-- The size of an input, which must not be empty. -/
def inputSize (files : FileTree) (path : String) : Outcome Nat :=
  match files.size path with
  | .error fault => .error (.size path (.io fault))
  | .ok 0 => .error (.size path .empty)
  | .ok n => .ok n

def largestInput (files : FileTree) (paths : List String) : Outcome Nat := do
  let sizes ← paths.mapM (inputSize files)
  .ok (sizes.foldl max 0)

/-- The number of shards for inputs the largest of which has the given size. -/
def shardsFor (largest limit : Nat) : Nat :=
  let limit := max limit 1
  max ((largest + limit - 1) / limit) 1

end Equijoin
