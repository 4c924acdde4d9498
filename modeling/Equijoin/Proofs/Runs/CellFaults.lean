import Equijoin.Proofs.Runs.Refinement
import Equijoin.Proofs.Runs.Remains
import Equijoin.Proofs.Stages.CellFaults

/-! # Runs that fail for a cell

* `Phase.Avoids`: a part of a run never ends with a fault.
* `avoids_prepared`, `avoids_emitOutput`: nothing but splitting and joining fails for a cell.
* `Job.Stops.locates`: where the cell is for which a run stops.
* `run_locates`: the same for runs. Splitting reports rows of the input. Joining reports rows of the
  file that it loads, which is the input only if there is one shard.
-/

set_option autoImplicit false

namespace Equijoin

open FileTree

variable {α β : Type} {row : Nat} {column raw : String} {fault : CellFault}

/-! ## Parts of a run that fail for no cell -/

/-- The part of a run never ends with the fault. -/
def Phase.Avoids (fault : Fault) (p : Phase α) : Prop := ∀ s, (p s).1 ≠ .error fault

theorem Phase.Avoids.bind {fault : Fault} {p : Phase α} {f : α → Phase β} (h : p.Avoids fault)
    (hrest : ∀ a, (f a).Avoids fault) : (p >>= f).Avoids fault := by
  intro s
  have hp := h s
  rcases Phase.bind_cases p f s with ⟨a, v, -, hbind⟩ | ⟨e, v, he, hbind⟩
  · rw [hbind]
    exact hrest a v
  · rw [hbind]
    rw [he] at hp
    simpa using hp

theorem Phase.avoids_change (f : Session → Session) :
    (Phase.change f).Avoids (.cell row column raw fault) := fun _ h => nomatch h

theorem Phase.avoids_succeed (a : α) :
    (Phase.succeed a).Avoids (.cell row column raw fault) := fun _ h => nomatch h

theorem declarationFault?_ne_cell (d : Dataset) (i : Nat) :
    Job.declarationFault? d i ≠ some (.cell row column raw fault) := by
  intro h
  unfold Job.declarationFault? at h
  rw [Option.orElse_eq_orElse, Option.orElse_eq_or, Option.or_eq_some_iff] at h
  rcases h with h | ⟨-, h⟩
  · obtain ⟨e, -, he⟩ := Option.map_eq_some_iff.1 h
    cases he
  · obtain ⟨name, -, h⟩ := List.exists_of_findSome?_eq_some h
    split at h <;> cases h

theorem clashFault?_ne_cell (earlier : List Dataset) (key₀ : List String) (d : Dataset) (i : Nat) :
    Job.clashFault? earlier key₀ d i ≠ some (.cell row column raw fault) := by
  intro h
  obtain ⟨c, -, h⟩ := List.exists_of_findSome?_eq_some h
  split at h
  · cases h
  · obtain ⟨j, -, hj⟩ := Option.map_eq_some_iff.1 h
    cases hj

theorem check_ne_cell (job : Job) : job.check ≠ .error (.cell row column raw fault) := by
  intro h
  have h : job.fault? = some (.cell row column raw fault) := by
    unfold Job.check at h
    split at h
    · rename_i e he
      cases h
      exact he
    · cases h
  unfold Job.fault? at h
  simp only [Option.orElse_eq_orElse, Option.orElse_eq_or, Option.or_eq_some_iff] at h
  rcases h with h | ⟨-, h | ⟨-, h | ⟨-, h | ⟨-, h⟩⟩⟩⟩
  · unfold Job.countFault? at h
    dsimp only at h
    split at h <;> cases h
  · unfold Job.emptyKeyFault? at h
    split at h <;> cases h
  · obtain ⟨i, expected, actual, hfault⟩ := unequalKeys?_eq_some h
    cases hfault
  · obtain ⟨⟨d, i⟩, -, h⟩ := List.exists_of_findSome?_eq_some h
    exact declarationFault?_ne_cell d i h
  · split at h
    · cases h
    · obtain ⟨⟨d, k⟩, -, h⟩ := List.exists_of_findSome?_eq_some h
      exact clashFault?_ne_cell _ _ d _ h

theorem largestInput_ne_cell (files : FileTree) (paths : List String) :
    largestInput files paths ≠ .error (.cell row column raw fault) := by
  intro h
  rcases bind_eq_error.1 h with h | ⟨sizes, -, h⟩
  · obtain ⟨path, -, h⟩ := exists_of_mapM_eq_error h
    unfold inputSize at h
    split at h <;> cases h
  · cases h

theorem avoids_opening (job : Job) (options : Options) :
    (job.opening options).Avoids (.cell row column raw fault) := by
  unfold Job.opening decideShards
  refine (Phase.avoids_change _).bind fun _ => ?_
  refine Phase.Avoids.bind (fun _ => check_ne_cell job) fun _ => ?_
  refine (Phase.avoids_change _).bind fun _ => ?_
  refine Phase.Avoids.bind (fun _ h => nomatch h) fun files => ?_
  refine Phase.Avoids.bind (fun _ => largestInput_ne_cell files _) fun largest => ?_
  exact (Phase.avoids_change _).bind fun _ => Phase.avoids_succeed _

theorem avoids_coerceDatasets (schedule : Schedule) (datasets : List Dataset) :
    (coerceDatasets schedule datasets).Avoids (.cell row column raw fault) := by
  refine Phase.Avoids.bind (fun s h => ?_) fun _ =>
    (Phase.avoids_change _).bind fun _ => Phase.avoids_succeed _
  rcases (fanOut_orderly (orderly_coercion datasets s) (AgreeOn.refl _ _) Nat.one_pos schedule).2
    with ⟨values, hok, -⟩ | ⟨i, t, e, u, ht, herror, -, halone, -⟩
  · cases hok.symm.trans h
  · cases herror.symm.trans h
    simp only [coercionTasks, List.getElem?_map, Option.map_eq_some_iff] at ht
    obtain ⟨d, -, rfl⟩ := ht
    obtain ⟨files, hyields, -⟩ := yields_onFiles.1 (Task.Yields.of_alone halone)
    exact avoids_prepare d _ _ hyields

theorem avoids_prepared (job : Job) (options : Options) (schedule : Schedule) :
    (job.prepared options schedule).Avoids (.cell row column raw fault) := by
  refine (avoids_opening job options).bind fun count => ?_
  refine (avoids_coerceDatasets schedule job.datasets).bind fun prepared => ?_
  refine Phase.Avoids.bind (fun _ => mapError_ne_error (by simp) _) fun merged => ?_
  exact (Phase.avoids_change _).bind fun _ => Phase.avoids_succeed _

theorem avoids_onFiles {f : FileTree → Outcome α × FileTree} {fault : Fault}
    (h : ∀ files, (f files).1 ≠ .error fault) : (Phase.onFiles f).Avoids fault :=
  fun s => h s.files

theorem partTexts_ne_cell (files : FileTree) (columns : List String) (parts : List Part) :
    partTexts files columns parts ≠ .error (.cell row column raw fault) := by
  induction parts with
  | nil => simp [partTexts]
  | cons part rest ih =>
    have hrest : ∀ text : Bytes, (partTexts files columns rest >>= fun texts => .ok (text ++ texts)) ≠
        .error (.cell row column raw fault) := by
      intro text h
      rcases bind_eq_error.1 h with h | ⟨texts, -, h⟩
      · exact ih h
      · cases h
    intro h
    rw [partTexts] at h
    split at h
    · cases h
    · dsimp only at h
      split at h
      · exact hrest [] h
      · rcases bind_eq_error.1 h with h | ⟨text, -, h⟩
        · exact mapError_ne_error (by simp) _ h
        · exact hrest text h

theorem assembleParts_ne_cell (parts : List Part) (path : String) (files : FileTree) :
    (assembleParts parts path files).1 ≠ .error (.cell row column raw fault) := by
  unfold assembleParts
  split
  · simp
  · rename_i e h
    intro he
    cases he
    unfold assemble at h
    dsimp only at h
    split at h
    · cases h
    · rcases bind_eq_error.1 h with h | ⟨staged, -, h⟩
      · exact mapError_ne_error (by simp) _ h
      · rcases bind_eq_error.1 h with h | ⟨text, -, h⟩
        · rcases bind_eq_error.1 h with h | ⟨rest, -, h⟩
          · exact partTexts_ne_cell _ _ _ h
          · cases h
        · cases h

theorem commit_ne_cell (staged : Location) (path : String) (files : FileTree) :
    (commit staged path files).1 ≠ .error (.cell row column raw fault) := by
  unfold commit
  split <;> simp

theorem publishOutput_ne_cell (merged : Schema) (output : Output) (a : Assembled)
    (files : FileTree) :
    (publishOutput merged output a files).1 ≠ .error (.cell row column raw fault) := by
  unfold publishOutput
  split
  · simp
  · split
    · rename_i e h
      intro he
      cases he
      rcases bind_eq_error.1 h with h | ⟨x, -, h⟩
      · exact mapError_ne_error (by simp) _ h
      · cases h
    · rename_i staged files' _
      have hdata : (commit a.staged output.dataPath files').1 ≠
          .error (.cell row column raw fault) := commit_ne_cell _ _ _
      split
      · rename_i hcommit
        rw [hcommit] at hdata
        simpa using hdata
      · rename_i files'' _
        have hschema : (commit staged output.schemaPath files'').1 ≠
            .error (.cell row column raw fault) := commit_ne_cell _ _ _
        split
        · rename_i hcommit
          rw [hcommit] at hschema
          simpa using hschema
        · simp

theorem avoids_emitOutput (merged : Schema) (output : Output) (parts : List Part) :
    (emitOutput merged output parts).Avoids (.cell row column raw fault) := by
  unfold emitOutput
  refine (Phase.avoids_change _).bind fun _ => ?_
  refine (avoids_onFiles (assembleParts_ne_cell parts output.dataPath)).bind fun a => ?_
  refine (Phase.avoids_change _).bind fun _ => (Phase.avoids_change _).bind fun _ => ?_
  refine (avoids_onFiles (publishOutput_ne_cell merged output a)).bind fun _ => ?_
  exact (Phase.avoids_change _).bind fun _ => Phase.avoids_succeed _

/-! ## Where a run stops for a cell -/

section Runs

variable {job : Job} {options : Options} {schedules : Schedules} {s ready : Session}
  {p : Job.Prepared} {files : FileTree} {dir : Scratch}

/-- Where the cell is for which a run fails: in a row of the file of a dataset, and in a key column
if there are several shards; or in a row of a file of a shard, if there are. -/
def Job.Locates (job : Job) (options : Options) (files : FileTree) (row : Nat)
    (column raw : String) (fault : CellFault) : Prop :=
  ∃ count, job.shardCount options files = .ok count ∧
    ∃ d ∈ job.datasets, ∃ d' c delimiter sheet types places,
      d.Prepared files d' c delimiter sheet types places ∧
        ((∃ place, (1 < count → place ∈ places) ∧
            sheet.Misread d'.schema row place column raw fault) ∨
          1 < count ∧ d'.MisreadIn files delimiter count sheet places row column raw fault)

theorem shardCount_of_prepared
    (h : job.prepared options schedules.coercion (s.begin job) = (.ok p, ready)) :
    job.shardCount options s.files = .ok p.count := by
  obtain ⟨o, values, v, hopening, -⟩ := prepared_eq_ok h
  exact (opening_eq_ok hopening).1

theorem spelled_of_prepared
    (h : job.prepared options schedules.coercion (s.begin job) = (.ok p, ready))
    (hscratch : ready.files.createScratch options.scratchParent = .ok (files, dir)) :
    AgreeOn Location.Spelled s.files files := by
  have hsame := reads_prepared job options schedules.coercion (s.begin job)
  rw [h] at hsame
  exact (hsame.mono fun _ _ => trivial).trans ((outside_createScratch hscratch).mono
    (outside_of_spelled (scratch_not_spelled hscratch)))

/-- Splitting fails for a cell in a key column of its dataset. -/
theorem splitting_locates
    (h : job.prepared options schedules.coercion (s.begin job) = (.ok p, ready))
    (hscratch : ready.files.createScratch options.scratchParent = .ok (files, dir)) {v : Session}
    (hsplit : fanOut schedules.sharding (shardingTasks p.count (.scratch dir) p.datasets)
      (ready.withFiles files) = (.error (.cell row column raw fault), v)) :
    job.Locates options s.files row column raw fault := by
  have hstage := (fanOut_orderly (orderly_sharding (scratch_not_spelled hscratch) p.count p.datasets
    (ready.withFiles files)) (AgreeOn.refl _ _) Nat.one_pos schedules.sharding).2
  rw [hsplit] at hstage
  rcases hstage with ⟨values, hok, -⟩ | ⟨i, task, e, u, htask, herror, -, halone, -⟩
  · cases hok
  · cases herror
    obtain ⟨d', hd', rfl⟩ := getElem?_shardingTasks htask
    obtain ⟨hcount, sheet', types', places', hopen, place, hplace, hmisread⟩ :=
      yields_shardTask_cell (Task.Yields.of_alone halone)
    obtain ⟨d, hd, c, delimiter, sheet, types, places, hprepared⟩ :=
      exists_left_of_forall₂ (forall₂_prepared h) (List.mem_of_getElem? hd')
    obtain ⟨rfl, rfl⟩ := hprepared.reopened
      (hopen.congr (spelled_of_prepared h hscratch).symm)
    exact ⟨p.count, shardCount_of_prepared h, d, hd, d', c, delimiter, sheet', types, places',
      hprepared, .inl ⟨place, fun _ => hplace, hmisread⟩⟩

/-- Joining fails for a cell in a file of a shard, which is the file of its dataset if there is
one shard. -/
theorem joining_locates (x : job.Split options schedules s) {v : Session}
    (hjoin : fanOut schedules.joining
      (joiningTasks x.prepared.datasets x.sets (.scratch x.dir) schedules.waits x.prepared.count)
      (x.split.admitting options) = (.error (.cell row column raw fault), v)) :
    job.Locates options s.files row column raw fault := by
  obtain ⟨hlength, hsets⟩ := sharding_values x.not_spelled x.splits
  have hsame : AgreeOn Location.Spelled x.files x.split.files := by
    have hkeep := sharding_keeps x.not_spelled schedules.sharding x.prepared.datasets
      x.prepared.count (x.ready.withFiles x.files)
    rw [x.splits] at hkeep
    exact hkeep.mono fun l hl i hown => ownsShards_not_spelled x.not_spelled i l hown hl
  have hpermit : 0 < max options.maxInFlight 1 := by omega
  have hstage := (fanOut_orderly (orderly_joining x.prepared.datasets schedules.waits x.not_spelled
    (fun _ hshard => x.fits hshard) (o := x.split.admitting options) hpermit) (AgreeOn.refl _ _)
      hpermit schedules.joining).2
  rw [hjoin] at hstage
  rcases hstage with ⟨values, hok, -⟩ | ⟨shard, task, e, u, htask, herror, -, halone, -⟩
  · cases hok
  · cases herror
    obtain ⟨hshard, rfl⟩ := getElem?_joiningTasks htask
    obtain ⟨input, hinput, hload⟩ := yields_joinTask_cell (Task.Yields.of_alone halone)
    obtain ⟨i, hi⟩ := List.mem_iff_getElem?.1 hinput
    rw [getElem?_shardInputs, Option.map_eq_some_iff] at hi
    obtain ⟨⟨d', set⟩, hzip, rfl⟩ := hi
    obtain ⟨hd', hset⟩ := List.getElem?_zip_eq_some.1 hzip
    obtain ⟨d, hd, c, delimiter, sheet, types, places, hprepared⟩ :=
      exists_left_of_forall₂ (forall₂_prepared x.prepares) (List.mem_of_getElem? hd')
    have hspelled := spelled_of_prepared x.prepares x.creates
    refine ⟨x.prepared.count, shardCount_of_prepared x.prepares, d, hd, d', c, delimiter, sheet,
      types, places, hprepared, ?_⟩
    rcases hprepared.misread hspelled (hsets i d' set hd' hset) (hspelled.trans hsame) hshard hload
      with ⟨hcount, place, hmisread⟩ | hmisread
    · exact .inl ⟨place, fun h => absurd h (by omega), hmisread⟩
    · exact .inr hmisread

theorem Job.Stops.locates {v : Session}
    (h : job.Stops options schedules s (.cell row column raw fault) v) :
    job.Locates options s.files row column raw fault := by
  generalize hfault : Fault.cell row column raw fault = e at h
  cases h with
  | early h =>
    subst hfault
    have havoid : (job.prepared options schedules.coercion (s.begin job)).1 ≠
        .error (.cell row column raw fault) := avoids_prepared _ _ _ _
    rw [h] at havoid
    exact absurd rfl havoid
  | scratch h hscratch => cases hfault
  | sharding h hscratch hsplit =>
    subst hfault
    exact splitting_locates h hscratch hsplit
  | @joining p ready split _ files dir sets _ h hscratch hsplit hjoin =>
    subst hfault
    exact joining_locates ⟨p, ready, dir, files, sets, split, h, hscratch, hsplit⟩ hjoin

/-- Wherever a run fails for a cell, this cell is one that holds no value of its column: in the row
that is reported, if the run fails while it splits or has one shard; and else in that row of a file
of a shard, which is another row of the input unless all records before it go to the same shard. -/
theorem run_locates (job : Job) (options : Options) (schedules : Schedules) (elapsed : Duration)
    (s : Session) (row : Nat) (column raw : String) (fault : CellFault)
    (h : (job.run options schedules elapsed s).1 = .error (.cell row column raw fault)) :
    job.Locates options s.files row column raw fault := by
  rw [run_eq, conclude_error] at h
  by_cases hworked : IsEmpty (job.Worked options schedules s)
  · obtain ⟨e, v, hstages, hstops⟩ := stages_stop hworked
    rw [hstages] at h
    cases h
    exact hstops.locates
  · obtain ⟨w⟩ := not_isEmpty_iff.1 hworked
    have havoid : (emitOutput w.prepared.merged job.output w.parts w.joined).1 ≠
        .error (.cell row column raw fault) := avoids_emitOutput _ _ _ _
    rcases hemit : emitOutput w.prepared.merged job.output w.parts w.joined with ⟨r, v⟩
    rw [w.stages_eq hemit] at h
    rw [hemit] at havoid
    exact absurd (map_eq_error.1 h) havoid

end Runs

/-- The second record of an input has a cell that is no integer. -/
def misreadFiles : FileTree :=
  (FileTree.empty.put [.given "a.csv"] (.file (Utf8.encode "id,x\n3,1\n1,z\n"))).put
    [.given "b.csv"] (.file (Utf8.encode "id,y\n1,3\n2,4\n"))

/-- Both records of an input go to different shards, and the cell in row 3 is reported in row 2. -/
theorem run_locates_second :
    (pairJob.run twoShards .sequential .zero (.ofFiles misreadFiles)).1 =
      .error (.cell 2 "x" "z" (.whole .invalidDigit)) ∧
    pairJob.Locates twoShards misreadFiles 2 "x" "z" (.whole .invalidDigit) ∧
    (misreadFiles.readSheet "a.csv" Delimiter.comma).map Csv.Sheet.records =
      .ok [.ok ["3", "1"], .ok ["1", "z"]] ∧
    (misreadFiles.readSheet "b.csv" Delimiter.comma).map Csv.Sheet.records =
      .ok [.ok ["1", "3"], .ok ["2", "4"]] := by
  have herror : (pairJob.run twoShards .sequential .zero (.ofFiles misreadFiles)).1 =
      .error (.cell 2 "x" "z" (.whole .invalidDigit)) := by
    decide +kernel
  exact ⟨herror, run_locates pairJob twoShards .sequential .zero (.ofFiles misreadFiles) 2 "x" "z"
    (.whole .invalidDigit) herror, by decide +kernel, by decide +kernel⟩

end Equijoin
