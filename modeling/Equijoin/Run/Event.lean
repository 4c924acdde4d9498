import Equijoin.Fault
import Equijoin.Run.Metrics
import Equijoin.Run.Stage

/-! # Events

What a run reports on its way, and the log lines of it.

* `Event`: one report.
* `Event.log?`: the log line of an event, if there is one.
-/

set_option autoImplicit false

namespace Equijoin

/-- What a run reports. -/
inductive Event where
  | runStarted (datasets : Nat)
  | stageStarted (stage : Stage)
  | shardCountDecided (count largest : Nat)
  | datasetCoerced (dataset : Nat) (promoted : List String)
  /-- The rows that were written, unless there is a single shard. -/
  | datasetSharded (dataset : Nat) (rows : Option Nat)
  | throttled (wait : Duration)
  | shardStarted (shard : Nat)
  | shardFinished (shard rows : Nat)
  | assembled (rows : Nat) (path : String)
  | runFinished (elapsed : Duration) (metrics : Snapshot)
  | runFailed (stage : Stage) (severity : Severity) (message : String)
  deriving DecidableEq, Repr

/-- How important a log line is. -/
inductive LogLevel where
  | error
  | warn
  | info
  | debug
  deriving DecidableEq, Repr

/-- The name of a level. -/
def LogLevel.name : LogLevel → String
  | error => "error"
  | warn => "warn"
  | info => "info"
  | debug => "debug"

/-- A line of the log. -/
structure LogLine where
  level : LogLevel
  text : String
  deriving DecidableEq, Repr

/-- The word for a severity in the log. -/
def Severity.logName : Severity → String
  | error => "Error"
  | critical => "Critical"

/-- The log line of an event. A coercion that promotes nothing is not logged. -/
def Event.log? : Event → Option LogLine
  | runStarted datasets => some ⟨.info, s!"joining {datasets} inputs"⟩
  | stageStarted stage => some ⟨.info, "stage " ++ stage.name⟩
  | shardCountDecided count largest =>
    some ⟨.info, s!"inputs split into {count} shard(s) (largest input {largest} bytes)"⟩
  | datasetCoerced dataset promoted =>
    if promoted.isEmpty then none
    else
      some ⟨.info, s!"input {dataset}: key column(s) " ++ Text.quoteList promoted ++
        " coerced to float64"⟩
  | datasetSharded dataset (some rows) =>
    some ⟨.debug, s!"input {dataset}: {rows} row(s) sharded"⟩
  | datasetSharded dataset none =>
    some ⟨.debug, s!"input {dataset}: single shard, file used as-is"⟩
  | throttled wait => some ⟨.debug, "shard join throttled for " ++ wait.text⟩
  | shardStarted shard => some ⟨.debug, s!"shard {shard} started"⟩
  | shardFinished shard rows => some ⟨.debug, s!"shard {shard} joined {rows} row(s)"⟩
  | assembled rows path => some ⟨.info, s!"assembled {rows} row(s) into {path}"⟩
  | runFinished elapsed metrics =>
    some ⟨.info, "join finished in " ++ elapsed.text ++ ": " ++ metrics.text⟩
  | runFailed stage severity message =>
    some ⟨.error, "[" ++ severity.logName ++ "] join failed during " ++ stage.name ++ ": " ++
      message⟩

end Equijoin
