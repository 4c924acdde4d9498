import Equijoin.Proofs.Runs.Refinement
import Equijoin.Proofs.Runs.Remains
import Equijoin.Proofs.Stages.Bounds

/-! # Runs whose lookups never miss

* `Job.Split.file_of_shard`: once the datasets are split, there is a set for each of them, and each
  set has a file for each shard.
* `Strict.run`, `Strict.run_eq`: a run with strict lookups is the same run, whatever its job, its
  files and its schedules are, and whether it succeeds.
* `run_keeps_bounds`: tables that are loaded or joined are sound; and so no lookup of a run misses.
-/

set_option autoImplicit false

namespace Equijoin

variable {job : Job} {options : Options} {schedules : Schedules} {s : Session}

/-! ## Shard sets -/

/-- The set of a dataset that has been split has a file for each shard. -/
theorem Dataset.SplitInto.lt_length {files after : FileTree} {d : Dataset} {delimiter : UInt8}
    {dir : Scratch} {i count shard : Nat} {set : ShardSet}
    (h : d.SplitInto files after delimiter dir i count set) (hshard : shard < count) :
    shard < set.files.length := by
  rcases h with ⟨hcount, rfl⟩ | ⟨-, sheet, types, places, routed, -, rfl, -⟩
  · exact Nat.lt_of_lt_of_le hshard hcount
  · rw [shardFiles, List.length_map, List.length_range]
    exact hshard

theorem lt_length_files {dir : Scratch} (hdir : ¬ dir.location.Spelled) {schedule : Schedule}
    {datasets : List Dataset} {count : Nat} {o v : Session} {sets : List ShardSet}
    (h : fanOut schedule (shardingTasks count (.scratch dir) datasets) o = (.ok sets, v))
    {shard : Nat} (hshard : shard < count) (set : ShardSet) (hset : set ∈ sets) :
    shard < set.files.length := by
  obtain ⟨hlength, hsets⟩ := sharding_values hdir h
  obtain ⟨i, hi, rfl⟩ := List.mem_iff_getElem.1 hset
  have hd : i < datasets.length := hlength ▸ hi
  exact (hsets i datasets[i] sets[i] (List.getElem?_eq_getElem hd)
    (List.getElem?_eq_getElem hi)).lt_length hshard

theorem Job.Split.file_of_shard (x : job.Split options schedules s) {shard : Nat}
    (hshard : shard < x.prepared.count) (set : ShardSet) (hset : set ∈ x.sets) :
    shard < set.files.length :=
  lt_length_files x.not_spelled x.splits hshard set hset

theorem Job.Split.sets_length (x : job.Split options schedules s) :
    x.sets.length = x.prepared.datasets.length :=
  (sharding_values x.not_spelled x.splits).1

/-! ## Runs with strict lookups -/

theorem withScratch_congr {α : Type} {body body' : Scratch → Phase α}
    (h : ∀ scratch : Scratch, ¬ scratch.location.Spelled → body scratch = body' scratch)
    (parent : String) : Phase.withScratch parent body = Phase.withScratch parent body' := by
  funext s
  unfold Phase.withScratch
  cases hcreates : s.files.createScratch parent with
  | error fault => rfl
  | ok made =>
    obtain ⟨files, scratch⟩ := made
    dsimp only
    rw [h scratch (scratch_not_spelled hcreates)]

namespace Strict

variable (miss : Fault)

def joinDatasets (options : Options) (schedules : Schedules) (datasets : List Dataset)
    (count : Nat) (scratch : Folder) : Phase (List Part) := do
  let sets ← Phase.sideBySide schedules.sharding
    (datasets.zipIdx.map fun (d, i) => shardTask miss count scratch i d)
  Phase.enter .shardJoin
  Phase.change fun s => { s with permits := max options.maxInFlight 1 }
  Phase.sideBySide schedules.joining
    ((List.range count).map (joinTask miss datasets sets scratch schedules.waits))

def stages (job : Job) (options : Options) (schedules : Schedules) : Phase Report := do
  Phase.enter .keyValidation
  Phase.ofOutcome job.check
  Phase.enter .typeCoercion
  let count ← decideShards options job.datasets
  let (datasets, coercions) ← coerceDatasets schedules.coercion job.datasets
  let merged ← Phase.ofOutcome
    ((Schema.merge (datasets.map Dataset.schema)).mapError Fault.schema)
  Phase.enter .sharding
  Phase.withScratch options.scratchParent fun scratch => do
    let parts ← joinDatasets miss options schedules datasets count (.scratch scratch)
    let (assembled, descriptor) ← emitOutput merged job.output parts
    Phase.succeed ⟨count, assembled.rows, descriptor, coercions, Metrics.zero.snapshot⟩

/-- A run in which every lookup of the tasks that split datasets and join shards is strict. -/
def run (job : Job) (options : Options) (schedules : Schedules) (elapsed : Duration) :
    Phase Report := fun s =>
  conclude elapsed (stages miss job options schedules (s.begin job))

theorem joinDatasets_eq {dir : Scratch} (hdir : ¬ dir.location.Spelled) (options : Options)
    (schedules : Schedules) (datasets : List Dataset) (count : Nat) :
    joinDatasets miss options schedules datasets count (.scratch dir) =
      Equijoin.joinDatasets options schedules datasets count (.scratch dir) := by
  funext s
  have hsplitting : (datasets.zipIdx.map fun (d, i) => shardTask miss count (.scratch dir) i d) =
      shardingTasks count (.scratch dir) datasets :=
    List.map_congr_left fun p _ => shardTask_eq miss count (.scratch dir) p.2 p.1
  unfold joinDatasets
  rw [joinDatasets_apply, hsplitting]
  rcases hsets : fanOut schedules.sharding (shardingTasks count (.scratch dir) datasets) s with
    ⟨r, v⟩
  cases r with
  | error fault => exact Phase.sideBySide_bind_error hsets
  | ok sets =>
    -- the sets of datasets that have been split have a file for each shard
    have hjoining : (List.range count).map
        (joinTask miss datasets sets (.scratch dir) schedules.waits) =
          joiningTasks datasets sets (.scratch dir) schedules.waits count :=
      List.map_congr_left fun shard hshard => joinTask_eq miss
        (lt_length_files hdir hsets (List.mem_range.1 hshard)) (.scratch dir) schedules.waits
    refine (Phase.sideBySide_bind_ok hsets).trans ?_
    rw [hjoining]
    rfl

theorem stages_eq (job : Job) (options : Options) (schedules : Schedules) :
    stages miss job options schedules = job.stages options schedules := by
  unfold stages Job.stages
  refine congrArg (Phase.bind _) (funext fun _ => congrArg (Phase.bind _) (funext fun _ => ?_))
  refine congrArg (Phase.bind _) (funext fun _ => congrArg (Phase.bind _) (funext fun count => ?_))
  refine congrArg (Phase.bind _) (funext fun prepared => ?_)
  refine congrArg (Phase.bind _) (funext fun _ => congrArg (Phase.bind _) (funext fun _ => ?_))
  refine withScratch_congr (fun scratch hscratch => ?_) options.scratchParent
  rw [joinDatasets_eq miss hscratch]

/-- A run with strict lookups, whatever it starts from and comes to, is the run itself. -/
theorem run_eq (job : Job) (options : Options) (schedules : Schedules) (elapsed : Duration) :
    run miss job options schedules elapsed = job.run options schedules elapsed := by
  unfold run
  rw [stages_eq]
  rfl

end Strict

/-- Tables are sound that have been loaded, or joined from sound ones, or joined from the files of a
shard, whatever becomes of these files meanwhile. So no lookup misses while a shard is joined or a
dataset is split, from whatever files; nor while a run joins its shards, as there is a set for each
dataset and each set has a file for each shard; and no record of a part is longer or shorter than
the one before. Whatever fault stands for this, nothing changes. -/
theorem run_keeps_bounds (miss : Fault) :
    (∀ (files : FileTree) (path : FilePath) (delimiter : UInt8) (schema : Schema) (table : Table),
      Table.load files path delimiter schema = .ok table → table.Sound) ∧
    (∀ (tables : List Table) (keys : List (List String)) (table : Table),
      (∀ t ∈ tables, t.Sound) → joinTables tables keys = .ok table → table.Sound) ∧
    (∀ inputs : List ShardInput, Footing.loose.Always (joinShard inputs) GivesSound ∧
      Strict.joinShard miss inputs = joinShard inputs) ∧
    (∀ (count : Nat) (scratch : Folder) (index : Nat) (d : Dataset),
      Strict.shardTask miss count scratch index d = shardTask count scratch index d) ∧
    (∀ (job : Job) (options : Options) (schedules : Schedules) (s : Session)
      (x : job.Split options schedules s), x.sets.length = x.prepared.datasets.length ∧
        ∀ shard < x.prepared.count, (∀ set ∈ x.sets, shard < set.files.length) ∧
          Strict.joinTask miss x.prepared.datasets x.sets (.scratch x.dir) schedules.waits shard =
            joinTask x.prepared.datasets x.sets (.scratch x.dir) schedules.waits shard) ∧
    ∀ (job : Job) (options : Options) (schedules : Schedules) (elapsed : Duration),
      Strict.run miss job options schedules elapsed = job.run options schedules elapsed := by
  refine ⟨fun _ _ _ _ _ => sound_load, fun _ _ _ => sound_joinTables, fun inputs =>
    ⟨always_joinShard inputs, Strict.joinShard_eq miss inputs⟩, Strict.shardTask_eq miss,
    fun job options schedules s x => ⟨x.sets_length, fun shard hshard => ?_⟩, Strict.run_eq miss⟩
  have hfiles := x.file_of_shard hshard
  exact ⟨hfiles, Strict.joinTask_eq miss hfiles (.scratch x.dir) schedules.waits⟩

/-- An input can be loaded; and a run of two shards comes to joining them, when every set has a file
for the second one. -/
theorem run_keeps_bounds_pair :
    (∃ table, Table.load pairFiles "a.csv" Delimiter.comma (pairSchema "id" "x") = .ok table ∧
      table.Sound ∧ ∃ result, joinTables [table, table] [["id"], ["id"]] = .ok result ∧
        result.Sound) ∧
    ∃ x : pairJob.Split twoShards .sequential (.ofFiles pairFiles),
      ∀ set ∈ x.sets, 1 < set.files.length := by
  obtain ⟨hload, hjoin, -, -, hfiles, -⟩ := run_keeps_bounds .cancelled
  refine ⟨?_, ?_⟩
  · let table : Table :=
      ⟨["id", "x"], [.int64, .int64], [[.int 1, .int 2], [.int 1, .int 4]]⟩
    have hok : Table.load pairFiles "a.csv" Delimiter.comma (pairSchema "id" "x") = .ok table := by
      decide +kernel
    have hjoined : joinTables [table, table] [["id"], ["id"]] =
        .ok (table.join table [0] [0]) := rfl
    have hsound := hload _ _ _ _ table hok
    refine ⟨table, hok, hsound, _, hjoined, hjoin _ _ _ (fun t ht => ?_) hjoined⟩
    obtain rfl : t = table := by simpa using ht
    exact hsound
  · have hcount : pairJob.shardCount twoShards pairFiles = .ok 2 := by decide
    obtain ⟨w, -⟩ : ∃ w : pairJob.Worked twoShards .sequential (.ofFiles pairFiles), _ :=
      worked_of_loads (by decide) hcount (plain_pairJob 2) provided_pairJob loads_pairJob
    have htwo : w.prepared.count = 2 := Except.ok.inj (w.shardCount.symm.trans hcount)
    have hshard : 1 < w.toSplit.prepared.count := htwo.symm ▸ Nat.one_lt_two
    exact ⟨w.toSplit, ((hfiles pairJob twoShards .sequential _ w.toSplit).2 1 hshard).1⟩

end Equijoin
