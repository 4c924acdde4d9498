/-! # Stages

A run goes through its stages in one order, and enters each at most once.
-/

set_option autoImplicit false

namespace Equijoin

/-- A stage of a run. -/
inductive Stage where
  /-- Before the first stage. -/
  | init
  /-- The job is checked. -/
  | keyValidation
  /-- The shard count is found, and text keys become floats. -/
  | typeCoercion
  /-- Datasets are split. -/
  | sharding
  /-- Shards are joined. -/
  | shardJoin
  /-- Parts become one file. -/
  | assembly
  /-- The output and its descriptor are published. -/
  | schemaEmit
  | done
  deriving DecidableEq, Repr, Inhabited

namespace Stage

def all : List Stage :=
  [init, keyValidation, typeCoercion, sharding, shardJoin, assembly, schemaEmit, done]

/-- The name of a stage. -/
def name : Stage → String
  | init => "init"
  | keyValidation => "key-validation"
  | typeCoercion => "type-coercion"
  | sharding => "sharding"
  | shardJoin => "shard-join"
  | assembly => "assembly"
  | schemaEmit => "schema-emit"
  | done => "done"

def ofName? (s : String) : Option Stage :=
  all.find? (·.name == s)

def rank (s : Stage) : Nat := s.ctorIdx

end Stage

end Equijoin
