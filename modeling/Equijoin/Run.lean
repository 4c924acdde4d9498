import Equijoin.Assembly
import Equijoin.Coercion
import Equijoin.Join
import Equijoin.Run.Options
import Equijoin.Run.Session
import Equijoin.Sharding

/-! # Runs

A run takes a job from the files of its inputs to the two files of its output. Datasets are coerced
and split side by side, and so are shards joined; a schedule says how the steps of these tasks
interleave.

* `Dataset.prepare`, `shardTask`, `joinTask`: the tasks.
* `Job.stages`: the stages of a run.
* `publishOutput`: the two files of the output take their places.
* `Job.execute`, `conclude`, `Job.run`: a run in a session.
-/

set_option autoImplicit false

namespace Equijoin

/-! ## Tasks -/

/-- The delimiter of a dataset, found out unless it is given. -/
def Dataset.findDelimiter (d : Dataset) : Task FileTree UInt8 :=
  match d.delimiter with
  | some delimiter => Task.succeed delimiter
  | none => do
    let files ← Task.read
    let found ← Task.ofOutcome (Delimiter.sniff files d.path)
    Task.succeed (found.getD Delimiter.comma)

/-- A dataset with its delimiter and its schema after coercion. -/
def Dataset.prepare (d : Dataset) : Task FileTree (Dataset × Coercion) := do
  let delimiter ← d.findDelimiter
  { d with delimiter := some delimiter }.coerce delimiter

def shardTask (count : Nat) (scratch : Folder) (index : Nat) (d : Dataset) :
    Task Session ShardSet := do
  let set ← (d.shard index (d.delimiter.getD Delimiter.comma) count scratch).onFiles
  if let some rows := set.rows then
    Task.count (·.addSharded (UInt64.ofNat rows))
  Task.emit (.datasetSharded index set.rows)
  Task.succeed set

def partPath (scratch : Folder) (shard : Nat) : FilePath :=
  scratch.file s!"part{fiveDigits shard}.csv"

def ShardSet.file (set : ShardSet) (shard : Nat) : FilePath :=
  (set.files[shard]?).getD (.spelled "")

def shardInputs (datasets : List Dataset) (sets : List ShardSet) (shard : Nat) :
    List ShardInput :=
  (datasets.zip sets).map fun (d, set) => ⟨set.file shard, set.delimiter, d.schema, d.key⟩

/-- The tree without the files of a shard. The files of datasets that were not split stay. -/
def releaseShard (sets : List ShardSet) (shard : Nat) (files : FileTree) : FileTree :=
  (sets.filter (·.rows.isSome)).foldl (fun files set => files.discard (set.file shard)) files

/-- The time that a shard has waited for its permit is counted and reported, if there is any. -/
def noteWait (waited : Duration) : Task Session Unit :=
  if waited = .zero then Task.succeed ()
  else do
    Task.count (·.addWait waited)
    Task.emit (.throttled waited)

/-- What an admitted shard has waited is noted; then it is joined, its files are removed, and its
part is written. -/
def joinAdmitted (datasets : List Dataset) (sets : List ShardSet) (scratch : Folder)
    (waited : Duration) (shard : Nat) : Task Session Part := do
  noteWait waited
  Task.check
  Task.count Metrics.startShard
  Task.emit (.shardStarted shard)
  let joined ← (joinShard (shardInputs datasets sets shard)).onFiles.caught
  Task.act fun s => s.withFiles (releaseShard sets shard s.files)
  let part ← (do
    let table ← Task.ofOutcome joined
    (writePart shard table (partPath scratch shard)).onFiles).caught
  let rows := match part with
    | .ok part => part.rows
    | .error _ => 0
  Task.count (·.endShard (UInt64.ofNat rows))
  let part ← Task.ofOutcome part
  Task.emit (.shardFinished shard rows)
  Task.succeed part

/-- A shard waits to be admitted, for as long as is given, and is joined; its permit is given back
in any case. -/
def joinTask (datasets : List Dataset) (sets : List ShardSet) (scratch : Folder)
    (waits : Nat → Duration) (shard : Nat) : Task Session Part := do
  Task.check
  Task.await Session.admit?
  let part ← (joinAdmitted datasets sets scratch (waits shard) shard).caught
  Task.act Session.release
  Task.ofOutcome part

/-! ## Publication -/

/-- The output and its descriptor take their places. If one of them cannot be staged, or the output
cannot take its place, nothing is published and no staged file is left. -/
def publishOutput (merged : Schema) (output : Output) (a : Assembled) (files : FileTree) :
    Outcome Descriptor × FileTree :=
  match merged.reconcile a.columns with
  | .error fault => (.error (.schema fault), files.unstage a.staged)
  | .ok descriptor =>
    match stageDescriptor descriptor output.schemaPath files with
    | .error fault => (.error fault, files.unstage a.staged)
    | .ok (staged, files) =>
      match commit a.staged output.dataPath files with
      | (.error fault, files) => (.error fault, files.unstage staged)
      | (.ok (), files) =>
        match commit staged output.schemaPath files with
        | (.error fault, files) => (.error fault, files)
        | (.ok (), files) => (.ok descriptor, files)

def assembleParts (parts : List Part) (path : String) (files : FileTree) :
    Outcome Assembled × FileTree :=
  match assemble parts path files with
  | .ok (assembled, files) => (.ok assembled, files)
  | .error fault => (.error fault, files)

/-! ## The stages -/

/-- How the steps of the tasks of each stage interleave, and the time that this takes shards that
wait for a permit. -/
structure Schedules where
  coercion : Schedule
  sharding : Schedule
  joining : Schedule
  /-- How long each shard has waited when it is admitted; not at all if it found a permit. -/
  waits : Nat → Duration

/-- The tasks of each stage run one after another, and no shard has to wait. -/
def Schedules.sequential : Schedules := ⟨[], [], [], fun _ => .zero⟩

/-- What a run has done. -/
structure Report where
  shardCount : Nat
  outputRows : Nat
  descriptor : Descriptor
  /-- What coercion did to each dataset. -/
  coercions : List Coercion
  /-- The counters at the end of the run. -/
  metrics : Snapshot
  deriving DecidableEq, Repr

def decideShards (options : Options) (datasets : List Dataset) : Phase Nat := do
  let files ← Phase.files
  let largest ← Phase.ofOutcome (largestInput files (datasets.map Dataset.path))
  let count := options.shardCount.getD (shardsFor largest options.shardSizeLimit)
  Phase.emit (.shardCountDecided count largest)
  Phase.succeed count

/-- Datasets are prepared, and what was done to them is reported. -/
def coerceDatasets (schedule : Schedule) (datasets : List Dataset) :
    Phase (List Dataset × List Coercion) := do
  let prepared ← Phase.sideBySide schedule (datasets.map fun d => d.prepare.onFiles)
  let coercions := prepared.map Prod.snd
  Phase.change fun s =>
    { s with
      events := s.events ++ coercions.zipIdx.map fun (c, i) => .datasetCoerced i c.promoted }
  Phase.succeed (prepared.map Prod.fst, coercions)

def joinDatasets (options : Options) (schedules : Schedules) (datasets : List Dataset)
    (count : Nat) (scratch : Folder) : Phase (List Part) := do
  let sets ← Phase.sideBySide schedules.sharding
    (datasets.zipIdx.map fun (d, i) => shardTask count scratch i d)
  Phase.enter .shardJoin
  Phase.change fun s => { s with permits := max options.maxInFlight 1 }
  Phase.sideBySide schedules.joining
    ((List.range count).map (joinTask datasets sets scratch schedules.waits))

def emitOutput (merged : Schema) (output : Output) (parts : List Part) :
    Phase (Assembled × Descriptor) := do
  Phase.enter .assembly
  let assembled ← Phase.onFiles (assembleParts parts output.dataPath)
  Phase.emit (.assembled assembled.rows output.dataPath)
  Phase.enter .schemaEmit
  let descriptor ← Phase.onFiles (publishOutput merged output assembled)
  Phase.enter .done
  Phase.succeed (assembled, descriptor)

def Job.stages (job : Job) (options : Options) (schedules : Schedules) : Phase Report := do
  Phase.enter .keyValidation
  Phase.ofOutcome job.check
  Phase.enter .typeCoercion
  let count ← decideShards options job.datasets
  let (datasets, coercions) ← coerceDatasets schedules.coercion job.datasets
  let merged ← Phase.ofOutcome
    ((Schema.merge (datasets.map Dataset.schema)).mapError Fault.schema)
  Phase.enter .sharding
  Phase.withScratch options.scratchParent fun scratch => do
    let parts ← joinDatasets options schedules datasets count (.scratch scratch)
    let (assembled, descriptor) ← emitOutput merged job.output parts
    Phase.succeed ⟨count, assembled.rows, descriptor, coercions, Metrics.zero.snapshot⟩

/-! ## Runs in a session -/

def Session.begin (s : Session) (job : Job) : Session :=
  { s with metrics := s.metrics.beginRun, stage := .init, events := [] }.emit
    (.runStarted job.datasets.length)

def Job.execute (job : Job) (options : Options) (schedules : Schedules) : Phase Report := fun s =>
  job.stages options schedules (s.begin job)

/-- The end of a run that took some time. -/
def conclude (elapsed : Duration) : Outcome Report × Session → Outcome Report × Session
  | (result, s) =>
    let s := { s with metrics := s.metrics.endRun elapsed }
    let metrics := s.metrics.snapshot
    match result with
    | .ok report => (.ok { report with metrics := metrics }, s.emit (.runFinished elapsed metrics))
    | .error fault => (.error fault, s.emit (.runFailed s.stage fault.severity fault.message))

def Job.run (job : Job) (options : Options) (schedules : Schedules) (elapsed : Duration) :
    Phase Report := fun s =>
  conclude elapsed (job.execute options schedules s)

end Equijoin
