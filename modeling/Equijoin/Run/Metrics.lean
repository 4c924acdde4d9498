import Equijoin.Duration

/-! # Counters of a run

* `Metrics`: the counters, which are words and wrap around. All but the number of the run start at
  zero with each run.
* `Snapshot`: the counters as they stand at some time. `Snapshot.text` is one line.
-/

set_option autoImplicit false

namespace Equijoin

/-- Counters of a run as they stand at some time. -/
structure Snapshot where
  runId : UInt64
  /-- The time that the run took, once it has ended. -/
  elapsed : Option Duration
  rowsSharded : UInt64
  rowsJoined : UInt64
  shardsStarted : UInt64
  shardsFinished : UInt64
  /-- The time that shards waited to be admitted. -/
  throttleWait : Duration
  maxActiveShards : UInt64
  deriving DecidableEq, Repr, Inhabited

def Snapshot.text (m : Snapshot) : String :=
  let elapsed :=
    match m.elapsed with
    | none => "None"
    | some d => "Some(" ++ d.text ++ ")"
  s!"run_id={m.runId}, rows_sharded={m.rowsSharded}, rows_joined={m.rowsJoined}, " ++
    s!"shards={m.shardsFinished}/{m.shardsStarted}, max_active_shards={m.maxActiveShards}, " ++
    s!"throttle_wait={m.throttleWait.text}, elapsed={elapsed}"

/-- The counters of a run. -/
structure Metrics where
  runId : UInt64
  /-- The nanoseconds that the run took; zero before its end. -/
  elapsed : UInt64
  rowsSharded : UInt64
  rowsJoined : UInt64
  shardsStarted : UInt64
  shardsFinished : UInt64
  /-- The nanoseconds that shards waited to be admitted. -/
  throttleWait : UInt64
  /-- The shards that are being joined. -/
  activeShards : UInt64
  /-- The most shards that were being joined at a time. -/
  maxActiveShards : UInt64
  deriving DecidableEq, Repr, Inhabited

namespace Metrics

def zero : Metrics := ⟨0, 0, 0, 0, 0, 0, 0, 0, 0⟩

def beginRun (m : Metrics) : Metrics :=
  { zero with runId := m.runId + 1 }

def endRun (m : Metrics) (elapsed : Duration) : Metrics :=
  { m with elapsed := elapsed.word }

def addSharded (m : Metrics) (rows : UInt64) : Metrics :=
  { m with rowsSharded := m.rowsSharded + rows }

/-- A shard starts. -/
def startShard (m : Metrics) : Metrics :=
  { m with
    shardsStarted := m.shardsStarted + 1
    activeShards := m.activeShards + 1
    maxActiveShards := max m.maxActiveShards (m.activeShards + 1) }

/-- A shard ends, with or without rows. -/
def endShard (m : Metrics) (rows : UInt64) : Metrics :=
  { m with
    rowsJoined := m.rowsJoined + rows
    shardsFinished := m.shardsFinished + 1
    activeShards := m.activeShards - 1 }

def addWait (m : Metrics) (wait : Duration) : Metrics :=
  { m with throttleWait := m.throttleWait + wait.word }

def snapshot (m : Metrics) : Snapshot where
  runId := m.runId
  elapsed := if m.elapsed = 0 then none else some ⟨m.elapsed.toNat⟩
  rowsSharded := m.rowsSharded
  rowsJoined := m.rowsJoined
  shardsStarted := m.shardsStarted
  shardsFinished := m.shardsFinished
  throttleWait := ⟨m.throttleWait.toNat⟩
  maxActiveShards := m.maxActiveShards

end Metrics

end Equijoin
