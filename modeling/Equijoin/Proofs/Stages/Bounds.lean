import Equijoin.Proofs.Stages.Joining
import Equijoin.Proofs.Tables.Bounds

/-! # Tasks whose lookups never miss

* `Footing.loose`: about the steps of a task nothing is said, only about its result.
* `Footing.Always.bind_congr`: what follows a task only matters for results that it may have.
* `always_joinShard`: whatever files a shard is joined from, and whatever happens to them meanwhile,
  the joined table is sound.
* `Strict.joinShard_eq`, `Strict.shardTask_eq`: joining a shard and splitting a dataset are the same
  tasks with strict lookups.
* `Strict.joinTask_eq`: so is the task of a shard, if every set has a file for it.
-/

set_option autoImplicit false

namespace Equijoin

variable {σ α β : Type}

/-! ## Results -/

namespace Footing

/-- The footing of a task about whose steps nothing is said. -/
def loose : Footing σ := ⟨fun _ _ => True, fun _ _ => True⟩

variable {F : Footing σ} {post : Outcome α → Prop}

theorem Always.bind_congr {t : Task σ α} {f g : α → Task σ β} (h : F.Always t post)
    (hrest : ∀ a, post (.ok a) → f a = g a) : t.bind f = t.bind g := by
  induction t with
  | done r =>
    cases r with
    | ok a => exact hrest a h
    | error fault => rfl
  | look next ih => exact congrArg Task.look (funext fun raised => ih raised (h raised))
  | step change next ih => exact congrArg (Task.step change) (funext fun s => ih s (h s).2)

theorem always_done_bind {r : Outcome β} {f : β → Task σ α}
    (hok : ∀ b, r = .ok b → F.Always (f b) post)
    (herror : ∀ fault, r = .error fault → post (.error fault)) :
    F.Always ((Task.done r).bind f) post := by
  cases r with
  | ok b => exact hok b rfl
  | error fault => exact herror fault rfl

theorem always_check_bind {f : Unit → Task σ α} (h : F.Always (f ()) post)
    (hcancelled : post (.error .cancelled)) : F.Always (Task.check.bind f) post := by
  intro raised
  cases raised with
  | true => exact hcancelled
  | false => exact h

theorem always_read_bind {f : σ → Task σ α} (h : ∀ s, loose.Always (f s) post) :
    loose.Always (Task.read.bind f) post := fun s => ⟨fun _ _ => trivial, h s⟩

theorem always_onFiles {t : Task FileTree α} (h : loose.Always t post) :
    loose.Always t.onFiles post :=
  @Always.within _ _ _ loose Session.files Session.withFiles (fun _ _ => rfl) _ _ h

end Footing

theorem read_bind_congr {f g : σ → Task σ α} (h : ∀ s, f s = g s) :
    Task.read.bind f = Task.read.bind g := by
  rw [funext h]

theorem done_bind_congr {r : Outcome β} {f g : β → Task σ α} (h : ∀ b, r = .ok b → f b = g b) :
    (Task.done r).bind f = (Task.done r).bind g := by
  cases r with
  | ok b => exact h b rfl
  | error fault => rfl

/-! ## Sound tables -/

/-- A table is sound, if the outcome is one. -/
def GivesSound (r : Outcome Table) : Prop := ∀ table, r = .ok table → table.Sound

theorem always_load (input : ShardInput) : Footing.loose.Always input.load fun r =>
    ∀ table places, r = .ok (table, places) →
      table.Sound ∧ ∀ i ∈ places, i < table.columns.length := by
  refine Footing.always_read_bind fun files => ?_
  refine Footing.always_done_bind (fun table htable => ?_) fun _ _ _ _ h => by cases h
  refine Footing.always_done_bind (fun places hplaces => ?_) fun _ _ _ _ h => by cases h
  intro table' places' h
  cases h
  exact ⟨sound_load htable, positions_lt hplaces⟩

theorem always_joinParts (leftKey : List Nat) {left : Table} (hleft : left.Sound)
    (inputs : List ShardInput) : Footing.loose.Always (joinParts leftKey left inputs) GivesSound := by
  induction inputs generalizing left with
  | nil =>
    intro table h
    cases h
    exact hleft
  | cons input rest ih =>
    rw [joinParts]
    refine Footing.always_check_bind ((always_load input).bind (fun loaded h => ?_)
      fun _ _ _ h => by cases h) fun _ h => by cases h
    obtain ⟨hright, -⟩ := h loaded.1 loaded.2 rfl
    exact ih (hleft.join hright leftKey loaded.2)

/-- Whatever files a shard is joined from, the table is sound. -/
theorem always_joinShard (inputs : List ShardInput) :
    Footing.loose.Always (joinShard inputs) GivesSound := by
  unfold joinShard
  split
  · exact fun _ h => by cases h
  · split
    · exact fun _ h => by cases h
    · refine (always_load _).bind (fun loaded h => ?_) fun _ _ _ h => by cases h
      exact always_joinParts _ (h loaded.1 loaded.2 rfl).1 _

namespace Strict

variable (miss : Fault)

/-! ## Joining the files of a shard -/

def joinParts (leftKey : List Nat) : Table → List ShardInput → Task FileTree Table
  | left, [] => Task.succeed left
  | left, input :: rest => do
    Task.check
    let (right, rightKey) ← input.load
    let joined ← Task.ofOutcome (join miss left right leftKey rightKey)
    joinParts leftKey joined rest

def joinShard (inputs : List ShardInput) : Task FileTree Table :=
  match inputs with
  | [] => Task.fail (.config .noShardInput)
  | first :: rest =>
    match unequalKeys? (inputs.map ShardInput.key) with
    | some fault => Task.fail fault
    | none => do
      let (left, leftKey) ← first.load
      joinParts miss leftKey left rest

theorem joinParts_eq {leftKey : List Nat} {left : Table}
    (hkey : ∀ l ∈ leftKey, l < left.columns.length) (inputs : List ShardInput) :
    joinParts miss leftKey left inputs = Equijoin.joinParts leftKey left inputs := by
  induction inputs generalizing left with
  | nil => rfl
  | cons input rest ih =>
    rw [joinParts, Equijoin.joinParts]
    refine congrArg (Task.bind Task.check) (funext fun _ => ?_)
    refine (always_load input).bind_congr fun loaded h => ?_
    obtain ⟨hright, -⟩ := h loaded.1 loaded.2 rfl
    -- the columns of the left table keep their places
    have hkey' : ∀ l ∈ leftKey, l < (left.join loaded.1 leftKey loaded.2).columns.length := by
      intro l hl
      rw [Table.join, List.length_append]
      exact Nat.lt_add_right _ (hkey l hl)
    dsimp only
    rw [join_eq miss hright.rectangular hkey]
    exact ih hkey'

/-- Joining the files of a shard, whatever they are, is the same task with strict lookups. -/
theorem joinShard_eq (inputs : List ShardInput) : joinShard miss inputs =
    Equijoin.joinShard inputs := by
  cases inputs with
  | nil => rfl
  | cons first rest =>
    unfold joinShard Equijoin.joinShard
    dsimp only
    cases unequalKeys? ((first :: rest).map ShardInput.key) with
    | some fault => rfl
    | none => exact (always_load first).bind_congr fun loaded h =>
        joinParts_eq miss (h loaded.1 loaded.2 rfl).2 rest

/-! ## Splitting a dataset -/

/-- Every record is written by the writer of its shard. -/
def routeRecords (writers : List FilePath) (columns : List KeyColumn) (count : Nat) (row : Nat)
    (earlier : List Routed) : List (Except Csv.Fault (List String)) → Task σ (List Routed)
  | [] => Task.succeed earlier.reverse
  | .error fault :: _ => Task.fail (.csv fault)
  | .ok cells :: records => do
    Task.check
    let key ← Task.ofOutcome (readKey row columns cells)
    let _ ← Task.ofOutcome (lookup miss writers (key.shard count))
    routeRecords writers columns count (row + 1) (⟨key.shard count, cells⟩ :: earlier) records

def shard (d : Dataset) (index : Nat) (delimiter : UInt8) (count : Nat) (scratch : Folder) :
    Task FileTree ShardSet :=
  if count ≤ 1 then Task.succeed ⟨[d.path], delimiter, none⟩
  else do
    let files ← Task.read
    let sheet ← Task.ofOutcome (files.readSheet d.path delimiter)
    let types ← Task.ofOutcome (d.schema.resolveSheet sheet)
    let places ← Task.ofOutcome ((positions sheet.header d.key).mapError Fault.schema)
    let columns ← Task.ofOutcome (keyColumns miss sheet.header types places)
    let shards := List.range count
    let paths := shards.map (shardPath scratch index)
    writeShards (paths.map fun path => (path, Csv.writeLine delimiter sheet.header))
    let routed ← routeRecords miss paths columns count 2 [] sheet.records
    writeShards (paths.zip (shards.map (shardText delimiter sheet.header routed)))
    Task.succeed ⟨paths, delimiter, some routed.length⟩

def shardTask (count : Nat) (scratch : Folder) (index : Nat) (d : Dataset) :
    Task Session ShardSet := do
  let set ← (shard miss d index (d.delimiter.getD Delimiter.comma) count scratch).onFiles
  if let some rows := set.rows then
    Task.count (·.addSharded (UInt64.ofNat rows))
  Task.emit (.datasetSharded index set.rows)
  Task.succeed set

theorem routeRecords_eq {writers : List FilePath} {count : Nat} (hcount : 0 < count)
    (hwriters : writers.length = count) (columns : List KeyColumn) (row : Nat)
    (earlier : List Routed) (records : List (Except Csv.Fault (List String))) :
    (routeRecords miss writers columns count row earlier records : Task σ (List Routed)) =
      Equijoin.routeRecords columns count row earlier records := by
  induction records generalizing row earlier with
  | nil => rfl
  | cons record records ih =>
    cases record with
    | error fault => rfl
    | ok cells =>
      rw [routeRecords, Equijoin.routeRecords]
      refine congrArg (Task.bind Task.check) (funext fun _ => done_bind_congr fun key _ => ?_)
      have hlt : key.shard count < writers.length := by
        rw [hwriters]
        exact Nat.mod_lt _ hcount
      rw [lookup_eq miss (List.getElem?_eq_getElem hlt)]
      exact ih _ _

theorem shard_eq (d : Dataset) (index : Nat) (delimiter : UInt8) (count : Nat)
    (scratch : Folder) :
    shard miss d index delimiter count scratch = d.shard index delimiter count scratch := by
  unfold shard Dataset.shard
  split
  · rfl
  · rename_i hcount
    refine read_bind_congr fun files => done_bind_congr fun sheet _ => ?_
    refine done_bind_congr fun types htypes => done_bind_congr fun places hplaces => ?_
    have hcolumns := keyColumns_eq miss (length_resolve (mapError_eq_ok.1 htypes))
      (positions_lt_length (mapError_eq_ok.1 hplaces))
    have hpaths : ((List.range count).map (shardPath scratch index)).length = count := by
      rw [List.length_map, List.length_range]
    dsimp only
    rw [hcolumns, Task.ofOutcome_eq, Task.bind_eq, Task.done_ok_bind]
    rw [routeRecords_eq miss (by omega) hpaths]

/-- Splitting a dataset, whatever its file is, is the same task with strict lookups. -/
theorem shardTask_eq (count : Nat) (scratch : Folder) (index : Nat) (d : Dataset) :
    shardTask miss count scratch index d = Equijoin.shardTask count scratch index d := by
  unfold shardTask Equijoin.shardTask
  exact congrArg (fun t : Task FileTree ShardSet => t.onFiles.bind _) (shard_eq miss d index _ count
    scratch)

/-! ## The task of a shard -/

def shardInputs (datasets : List Dataset) (sets : List ShardSet) (shard : Nat) :
    Outcome (List ShardInput) :=
  (datasets.zip sets).mapM fun (d, set) => do
    let path ← lookup miss set.files shard
    .ok ⟨path, set.delimiter, d.schema, d.key⟩

/-- The files of a shard that are removed. -/
def released (sets : List ShardSet) (shard : Nat) : Outcome (List FilePath) :=
  (sets.filter (·.rows.isSome)).mapM fun set => lookup miss set.files shard

/-- Records must be as wide as those before them. -/
def writePart (index : Nat) (table : Table) (path : FilePath) : Task FileTree Part := do
  let write (content : Bytes) : Task FileTree Unit :=
    Task.attempt fun files =>
      (files.writeFile path content).mapError fun fault => .csv (.io fault)
  write []
  write (← Task.ofOutcome ((Csv.writeLines Delimiter.comma table.cells).mapError fun _ => miss))
  Task.succeed ⟨index, table.columns, table.rows.length, path⟩

def joinAdmitted (datasets : List Dataset) (sets : List ShardSet) (scratch : Folder)
    (waited : Duration) (shard : Nat) : Task Session Part := do
  noteWait waited
  Task.check
  Task.count Metrics.startShard
  Task.emit (.shardStarted shard)
  let inputs ← Task.ofOutcome (shardInputs miss datasets sets shard)
  let joined ← (joinShard miss inputs).onFiles.caught
  let paths ← Task.ofOutcome (released miss sets shard)
  Task.act fun s => s.withFiles (paths.foldl FileTree.discard s.files)
  let part ← (do
    let table ← Task.ofOutcome joined
    (writePart miss shard table (partPath scratch shard)).onFiles).caught
  reportPart shard part

def joinTask (datasets : List Dataset) (sets : List ShardSet) (scratch : Folder)
    (waits : Nat → Duration) (shard : Nat) : Task Session Part := do
  Task.check
  Task.await Session.admit?
  let part ← (joinAdmitted miss datasets sets scratch (waits shard) shard).caught
  Task.act Session.release
  Task.ofOutcome part

section Tasks

variable {datasets : List Dataset} {sets : List ShardSet} {n : Nat}

theorem lookup_file {set : ShardSet} (h : n < set.files.length) :
    lookup miss set.files n = .ok (set.file n) := by
  have hfile : set.files[n]? = some set.files[n] := List.getElem?_eq_getElem h
  rw [lookup_eq miss hfile, ShardSet.file, hfile, Option.getD_some]

theorem shardInputs_eq (h : ∀ set ∈ sets, n < set.files.length) :
    shardInputs miss datasets sets n = .ok (Equijoin.shardInputs datasets sets n) := by
  refine mapM_eq_map fun p hp => ?_
  obtain ⟨d, set⟩ := p
  dsimp only
  rw [lookup_file miss (h set (List.of_mem_zip hp).2), ok_bind]

theorem released_eq (h : ∀ set ∈ sets, n < set.files.length) :
    released miss sets n =
      .ok ((sets.filter (·.rows.isSome)).map fun set => set.file n) :=
  mapM_eq_map fun set hset => lookup_file miss (h set (List.mem_filter.1 hset).1)

theorem writePart_eq {table : Table} (h : table.Rectangular) (path : FilePath) :
    writePart miss n table path = Equijoin.writePart n table path := by
  obtain ⟨text, htext⟩ := h.text
  unfold writePart Equijoin.writePart
  rw [show Csv.writeLines Delimiter.comma table.cells = .ok text from htext]
  rfl

theorem joinAdmitted_eq (h : ∀ set ∈ sets, n < set.files.length) (scratch : Folder)
    (waited : Duration) : joinAdmitted miss datasets sets scratch waited n =
      Equijoin.joinAdmitted datasets sets scratch waited n := by
  have hjoined := Footing.always_onFiles (always_joinShard (Equijoin.shardInputs datasets sets n))
  rw [Equijoin.joinAdmitted_eq, joinAdmitted, shardInputs_eq miss h, released_eq miss h]
  refine congrArg (Task.bind _) (funext fun _ => congrArg (Task.bind Task.check) (funext fun _ => ?_))
  refine congrArg (Task.bind _) (funext fun _ => congrArg (Task.bind _) (funext fun _ => ?_))
  rw [Task.ofOutcome_eq, Task.bind_eq, Task.done_ok_bind, joinShard_eq]
  refine hjoined.caught.bind_congr fun joined hsound => ?_
  obtain ⟨r, hr, hsound⟩ := hsound
  cases hr
  rw [Task.ofOutcome_eq, Task.bind_eq, Task.done_ok_bind]
  have hrelease : (fun s : Session => s.withFiles
      (((sets.filter (·.rows.isSome)).map fun set => set.file n).foldl FileTree.discard s.files)) =
        fun s => s.withFiles (releaseShard sets n s.files) :=
    funext fun s => by rw [List.foldl_map, releaseShard]
  have hpart : (do
      let table ← Task.ofOutcome joined
      (writePart miss n table (partPath scratch n)).onFiles : Task Session Part) = (do
      let table ← Task.ofOutcome joined
      (Equijoin.writePart n table (partPath scratch n)).onFiles) :=
    done_bind_congr fun table htable => by
      rw [writePart_eq miss (hsound table htable).rectangular]
  rw [hrelease, hpart]

/-- If every set has a file for the shard, its task is the same with strict lookups, and no record
of its part is longer or shorter than another one. -/
theorem joinTask_eq (h : ∀ set ∈ sets, n < set.files.length) (scratch : Folder)
    (waits : Nat → Duration) : joinTask miss datasets sets scratch waits n =
      Equijoin.joinTask datasets sets scratch waits n := by
  unfold joinTask Equijoin.joinTask
  rw [joinAdmitted_eq miss h]

end Tasks

end Strict

end Equijoin
