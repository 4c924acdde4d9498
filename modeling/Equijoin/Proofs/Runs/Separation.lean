import Equijoin.Proofs.Files.Folders
import Equijoin.Proofs.Runs.Refinement
import Equijoin.Proofs.Runs.Remains
import Equijoin.Proofs.Stages.Confinement

/-! # Tasks of a run and their files

The names of shard files and part files are all different, whatever the numbers in them. So tasks of
a run that work on different datasets and shards have no file in common.

* `shardPath_inj`, `partPath_inj`, `shardPath_ne_partPath`: the paths in a folder.
* `Job.Makes`: the scratch directory that a run makes.
* `Job.Begins.confines`: every task of a run keeps to its files in that directory.
* `Stage.Hands`: the file of a dataset and a shard, between the two tasks that work on them.
* `run_separates`: all that two tasks of a run may share are such files.
* `Job.Split.writes_sharding`, `Job.Split.reads_joining`, `Job.Split.writes_joining`: these they do
  share, where a run has more than one shard.
-/

set_option autoImplicit false

namespace Equijoin

open FileTree

/-! ## Paths in a folder -/

section Paths

variable {folder : Folder} {i j shard shard' : Nat}

theorem shardPath_inj (h : Collide (shardPath folder i shard) (shardPath folder j shard')) :
    i = j ∧ shard = shard' :=
  shardName_inj (h.name_eq (isName_shardName i shard) (isName_shardName j shard'))

theorem partPath_inj (h : Collide (partPath folder shard) (partPath folder shard')) :
    shard = shard' :=
  partName_inj (h.name_eq (isName_partName shard) (isName_partName shard'))

theorem shardPath_ne_partPath : ¬ Collide (shardPath folder i shard) (partPath folder shard') :=
  fun h => shardName_ne_partName i shard shard'
    (h.name_eq (isName_shardName i shard) (isName_partName shard'))

end Paths

/-! ## Tasks and the scratch directory -/

/-- What the task of a number owns in the scratch directory while a run is at a stage. -/
def Stage.Owns (dir : Scratch) : Stage → Nat → Location → Prop
  | .sharding, i => ownsShards dir i
  | .shardJoin, shard => ownsShard dir shard
  | _, _ => fun _ => False

/-- The file of a dataset and a shard, which the task of the dataset writes and that of the shard
reads and removes. -/
inductive Stage.Hands (dir : Scratch) (l : Location) : Stage × Nat → Stage × Nat → Prop
  | forth {dataset shard : Nat} (h : l = shardPlace dir dataset shard) :
    Hands dir l (.sharding, dataset) (.shardJoin, shard)
  | back {dataset shard : Nat} (h : l = shardPlace dir dataset shard) :
    Hands dir l (.shardJoin, shard) (.sharding, dataset)

theorem Stage.Owns.below {dir : Scratch} {stage : Stage} {i : Nat} {l : Location}
    (h : stage.Owns dir i l) : dir.location <+: l ∧ l ≠ dir.location := by
  obtain ⟨name, rfl⟩ : ∃ name, l = dir.location ++ [.given name] := by
    cases stage with
    | sharding =>
      obtain ⟨shard, rfl⟩ := h
      exact ⟨_, rfl⟩
    | shardJoin =>
      rcases h with ⟨dataset, rfl⟩ | rfl
      · exact ⟨_, rfl⟩
      · exact ⟨_, rfl⟩
    | _ => exact h.elim
  exact ⟨List.prefix_append _ _, (location_ne_append _ _).symm⟩

theorem eq_shardPlace_of_owns {dir : Scratch} {dataset shard : Nat} {l : Location}
    (h : ownsShards dir dataset l) (h' : ownsShard dir shard l) :
    l = shardPlace dir dataset shard := by
  obtain ⟨shard', rfl⟩ := h
  cases h' with
  | inl hshard =>
    obtain ⟨dataset', hsame⟩ := hshard
    rw [(shardPlace_inj hsame).2]
  | inr hpart => exact absurd hpart shardPlace_ne_partPlace

/-- What two tasks own is handed from one to the other, or they are the same task. -/
theorem Stage.Owns.meet {dir : Scratch} {stage stage' : Stage} {i j : Nat} {l : Location}
    (h : stage.Owns dir i l) (h' : stage'.Owns dir j l) (hne : (stage, i) ≠ (stage', j)) :
    Stage.Hands dir l (stage, i) (stage', j) := by
  cases stage with
  | sharding =>
    cases stage' with
    | sharding => exact absurd (congrArg _ (ownsShards_unique h h')) hne
    | shardJoin => exact .forth (eq_shardPlace_of_owns h h')
    | _ => exact h'.elim
  | shardJoin =>
    cases stage' with
    | sharding => exact .back (eq_shardPlace_of_owns h' h)
    | shardJoin => exact absurd (congrArg _ (ownsShard_unique h h')) hne
    | _ => exact h'.elim
  | _ => exact h.elim

namespace Job

variable {job : Job} {options : Options} {schedules : Schedules} {s : Session} {dir dir' : Scratch}

/-- A run of a job in a session makes the scratch directory. -/
def Makes (job : Job) (options : Options) (schedules : Schedules) (s : Session) (dir : Scratch) :
    Prop :=
  ∃ (p : Prepared) (u : Session) (files : FileTree),
    job.prepared options schedules.coercion (s.begin job) = (.ok p, u) ∧
      u.files.createScratch options.scratchParent = .ok (files, dir)

theorem Makes.unique (h : job.Makes options schedules s dir)
    (h' : job.Makes options schedules s dir') : dir = dir' := by
  obtain ⟨p, u, files, hprepared, hcreate⟩ := h
  obtain ⟨p', u', files', hprepared', hcreate'⟩ := h'
  cases hprepared.symm.trans hprepared'
  cases hcreate.symm.trans hcreate'
  rfl

theorem Makes.not_spelled (h : job.Makes options schedules s dir) : ¬ dir.location.Spelled := by
  obtain ⟨p, u, files, -, hcreate⟩ := h
  exact scratch_not_spelled hcreate

namespace Begins

variable {stage stage' : Stage} {α β : Type} {tasks : List (Task Session α)}
  {tasks' : List (Task Session β)} {u u' : Session} {i j : Nat} {t : Task Session α}
  {t' : Task Session β} {l : Location}

/-- Whatever stage a run has come to, its tasks keep to what they own. -/
theorem confines (h : job.Begins options schedules s stage α tasks u)
    (hdir : job.Makes options schedules s dir) (ht : tasks[i]? = some t) :
    dir.Confines (stage.Owns dir i) t := by
  have hspelled := hdir.not_spelled
  cases h with
  | coercion hopening =>
    obtain ⟨d, -, rfl⟩ := getElem?_coercionTasks ht
    exact confines_onFiles (confines_prepare hspelled d)
  | sharding hprepared hcreate =>
    cases hdir.unique ⟨_, _, _, hprepared, hcreate⟩
    obtain ⟨d, -, rfl⟩ := getElem?_shardingTasks ht
    exact confines_shardTask hspelled _ i d
  | joining hprepared hcreate hsets =>
    cases hdir.unique ⟨_, _, _, hprepared, hcreate⟩
    obtain ⟨hi, rfl⟩ := getElem?_joiningTasks ht
    obtain ⟨hlength, hsplit⟩ := sharding_values hspelled hsets
    exact confines_joinTask hspelled (sets_fit hlength hsplit i hi) _

/-- Only tasks that come after the scratch directory write files. -/
theorem makes (h : job.Begins options schedules s stage α tasks u) (ht : tasks[i]? = some t)
    (hwrites : t.Writes l) : ∃ dir, job.Makes options schedules s dir := by
  cases h with
  | coercion hopening =>
    obtain ⟨d, -, rfl⟩ := getElem?_coercionTasks ht
    -- whatever directory a run may make, preparing a dataset owns nothing there
    have hfresh : ¬ Location.Spelled [.fresh 0] := fun h => h 0 List.mem_cons_self
    have hnone : Scratch.Confines ⟨[.fresh 0], 0⟩ (fun _ => False) d.prepare.onFiles :=
      confines_onFiles (confines_prepare hfresh d)
    exact (hnone.owns hwrites).elim
  | sharding hprepared hcreate => exact ⟨_, _, _, _, hprepared, hcreate⟩
  | joining hprepared hcreate hsets => exact ⟨_, _, _, _, hprepared, hcreate⟩

theorem hands (h : job.Begins options schedules s stage α tasks u)
    (h' : job.Begins options schedules s stage' β tasks' u') (ht : tasks[i]? = some t)
    (ht' : tasks'[j]? = some t') (hne : (stage, i) ≠ (stage', j)) (hwrites : t.Writes l)
    (huses : t'.Reads l ∨ t'.Writes l) :
    ∃ dir, job.Makes options schedules s dir ∧ Stage.Hands dir l (stage, i) (stage', j) := by
  obtain ⟨dir, hdir⟩ := h.makes ht hwrites
  have howns := (h.confines hdir ht).owns hwrites
  have hconfines := h'.confines hdir ht'
  refine ⟨dir, hdir, howns.meet ?_ hne⟩
  rcases huses with hreads | hwrites
  · obtain ⟨hbelow, hplace⟩ := howns.below
    exact (hconfines.sees hreads hbelow).resolve_left hplace
  · exact hconfines.owns hwrites

end Begins

end Job

/-! ## Runs -/

/-- Paths in a scratch directory never collide. Two shard paths that are the same, or that lead to
one location in some tree, have both numbers in common, two part paths have their number in common,
and a shard path is no part path. So it is with the tasks of a run, whatever its job and its number
of shards: what a step changes among the files is something that its task writes, and what a task
writes or removes no other task reads or writes, but for the file of a dataset and a shard between
the task of that dataset and the task of that shard. -/
theorem run_separates :
    (∀ (folder : Folder) (i j shard shard' : Nat),
      Collide (shardPath folder i shard) (shardPath folder j shard') → i = j ∧ shard = shard') ∧
    (∀ (folder : Folder) (shard shard' : Nat),
      Collide (partPath folder shard) (partPath folder shard') → shard = shard') ∧
    (∀ (folder : Folder) (i shard shard' : Nat),
      ¬ Collide (shardPath folder i shard) (partPath folder shard')) ∧
    ∀ (job : Job) (options : Options) (schedules : Schedules) (s : Session) (stage : Stage)
      (α : Type) (tasks : List (Task Session α)) (u : Session),
      job.Begins options schedules s stage α tasks u →
        (∀ (schedule : Schedule) (i : Nat) (p' : Pool Session α) (l : Location),
          ((Pool.start tasks u).run schedule).step? i = some p' →
          p'.state.files.nodeAt? l ≠
            ((Pool.start tasks u).run schedule).state.files.nodeAt? l →
          ∃ t, tasks[i]? = some t ∧ t.Writes l) ∧
        ∀ (stage' : Stage) (β : Type) (tasks' : List (Task Session β)) (u' : Session),
          job.Begins options schedules s stage' β tasks' u' →
          ∀ (i j : Nat) (t : Task Session α) (t' : Task Session β) (l : Location),
            tasks[i]? = some t → tasks'[j]? = some t' → (stage, i) ≠ (stage', j) →
            t.Writes l → t'.Reads l ∨ t'.Writes l →
            ∃ dir, job.Makes options schedules s dir ∧
              Stage.Hands dir l (stage, i) (stage', j) := by
  refine ⟨fun _ _ _ _ _ => shardPath_inj, fun _ _ _ => partPath_inj,
    fun _ _ _ _ => shardPath_ne_partPath, fun job options schedules s stage α tasks u h => ⟨?_, ?_⟩⟩
  · intro schedule i p' l hstep hchange
    exact Pool.changes_of_step ((Pool.stems_start tasks u).run schedule) hstep hchange
  · intro stage' β tasks' u' h' i j t t' l ht ht' hne hwrites huses
    exact h.hands h' ht ht' hne hwrites huses

/-! ## Shard files -/

namespace Job.Split

variable {job : Job} {options : Options} {schedules : Schedules} {s : Session}

theorem makes (x : job.Split options schedules s) : job.Makes options schedules s x.dir :=
  ⟨_, _, _, x.prepares, x.creates⟩

theorem begins_sharding (x : job.Split options schedules s) :
    job.Begins options schedules s .sharding ShardSet
      (shardingTasks x.prepared.count (.scratch x.dir) x.prepared.datasets)
      (x.ready.withFiles x.files) := .sharding x.prepares x.creates

theorem begins_joining (x : job.Split options schedules s) :
    job.Begins options schedules s .shardJoin Part
      (joiningTasks x.prepared.datasets x.sets (.scratch x.dir) schedules.waits x.prepared.count)
      (x.split.admitting options) := .joining x.prepares x.creates x.splits

variable {dataset shard : Nat}

/-- The set of a dataset that is split names a file for each shard, and the file stands. -/
theorem split_set (x : job.Split options schedules s) (hcount : 1 < x.prepared.count)
    (hdataset : dataset < x.prepared.datasets.length) (hshard : shard < x.prepared.count) :
    (∃ set, x.sets[dataset]? = some set ∧
      set.file shard = shardPath (.scratch x.dir) dataset shard) ∧
    ∃ c, x.split.files.nodeAt? (shardPlace x.dir dataset shard) = some (.file c) := by
  obtain ⟨hlength, hsets⟩ := sharding_values x.not_spelled x.splits
  have hset : x.sets[dataset]? = some x.sets[dataset] := List.getElem?_eq_getElem (by omega)
  rcases hsets dataset _ _ (List.getElem?_eq_getElem hdataset) hset with
    ⟨hone, -⟩ | ⟨-, sheet, types, places, routed, -, hfiles, hreads⟩
  · omega
  · refine ⟨⟨_, hset, ?_⟩, _, (nodeAt?_of_read (hreads shard hshard)).1⟩
    rw [hfiles]
    exact file_shardFiles _ _ hshard

/-- The task of a dataset writes the file of each of its shards. -/
theorem writes_sharding (x : job.Split options schedules s) (hcount : 1 < x.prepared.count)
    (hdataset : dataset < x.prepared.datasets.length) (hshard : shard < x.prepared.count) :
    ∃ t, (shardingTasks x.prepared.count (.scratch x.dir) x.prepared.datasets)[dataset]? = some t ∧
      t.Writes (shardPlace x.dir dataset shard) := by
  obtain ⟨-, c, hfile⟩ := x.split_set hcount hdataset hshard
  have hchange : (fanOut schedules.sharding (shardingTasks x.prepared.count (.scratch x.dir)
      x.prepared.datasets) (x.ready.withFiles x.files)).2.files.nodeAt?
        (shardPlace x.dir dataset shard) ≠ x.files.nodeAt? (shardPlace x.dir dataset shard) := by
    rw [x.splits, x.nodeAt?_new dataset shard]
    simp [hfile]
  obtain ⟨i, t, ht, hwrites⟩ : ∃ (i : Nat) (t : Task Session ShardSet),
      (shardingTasks x.prepared.count (.scratch x.dir) x.prepared.datasets)[i]? = some t ∧
        t.Writes (shardPlace x.dir dataset shard) := changes_of_fanOut hchange
  obtain ⟨shard', hsame⟩ := (x.begins_sharding.confines x.makes ht).owns hwrites
  obtain ⟨rfl, rfl⟩ := shardPlace_inj hsame
  exact ⟨t, ht, hwrites⟩

theorem changes_noteWait_bind {α γ : Type} {view : Session → γ} (v : Session) (waited : Duration)
    {f : Unit → Task Session α} (h : (f ()).Changes view) :
    ((noteWait waited).bind f).Changes view := by
  unfold noteWait
  split
  · exact h
  · exact ⟨v, .inr ⟨v, .inr h⟩⟩

/-- The task of a shard removes the file that each dataset has for it. -/
theorem writes_joining (x : job.Split options schedules s) (hcount : 1 < x.prepared.count)
    (hdataset : dataset < x.prepared.datasets.length) (hshard : shard < x.prepared.count) :
    (joinTask x.prepared.datasets x.sets (.scratch x.dir) schedules.waits shard).Writes
      (shardPlace x.dir dataset shard) := by
  obtain ⟨-, c, hfile⟩ := x.split_set hcount hdataset hshard
  have hcleared := (x.held hshard).cleared (fun set hset => x.fits hshard set hset) dataset
  have hadmitted : (joinAdmitted x.prepared.datasets x.sets (.scratch x.dir) (schedules.waits shard)
      shard).Writes (shardPlace x.dir dataset shard) := by
    rw [joinAdmitted_eq]
    refine changes_noteWait_bind x.split _ ⟨false, x.split, .inr ⟨x.split, .inr ?_⟩⟩
    refine Task.changes_caught_bind x.split fun joined => ⟨x.split, .inl ⟨_, rfl, fun hsame => ?_⟩⟩
    cases hfile.symm.trans (hsame.symm.trans hcleared)
  exact ⟨false, x.split, .inr hadmitted.caught.bind⟩

/-- Where all shards are joined, each task succeeds alone. -/
theorem alone_joining (x : job.Split options schedules s) {schedule : Schedule} {parts : List Part}
    {v : Session} (hjoins : fanOut schedule (joiningTasks x.prepared.datasets x.sets
      (.scratch x.dir) schedules.waits x.prepared.count) (x.split.admitting options) =
        (.ok parts, v))
    (hshard : shard < x.prepared.count) : ∃ part u,
      (joinTask x.prepared.datasets x.sets (.scratch x.dir) schedules.waits shard).alone false
        (x.split.admitting options) = some (.ok part, u) := by
  have hpermit : 0 < (x.split.admitting options).permits :=
    show 0 < max options.maxInFlight 1 by omega
  have horderly := orderly_joining x.prepared.datasets schedules.waits x.not_spelled
    (fun shard h set hset => x.fits h set hset) hpermit
  obtain ⟨-, hstage⟩ := fanOut_orderly horderly (AgreeOn.refl _ _) hpermit schedule
  rw [hjoins] at hstage
  rcases hstage with ⟨values, hok, hlength, hvalues⟩ | ⟨i, t, fault, u, -, herror, -⟩
  · cases hok
    have hpart : shard < parts.length := by
      rw [hlength, joiningTasks, List.length_map, List.length_range]
      exact hshard
    obtain ⟨t, u, ht, halone, -⟩ := hvalues shard _ (List.getElem?_eq_getElem hpart)
    obtain ⟨-, rfl⟩ := getElem?_joiningTasks ht
    exact ⟨_, u, halone⟩
  · cases herror

/-- The task of a shard reads the file that each dataset has for it. -/
theorem reads_joining (x : job.Split options schedules s) {schedule : Schedule} {parts : List Part}
    {v : Session} (hjoins : fanOut schedule (joiningTasks x.prepared.datasets x.sets
      (.scratch x.dir) schedules.waits x.prepared.count) (x.split.admitting options) =
        (.ok parts, v))
    (hcount : 1 < x.prepared.count) (hdataset : dataset < x.prepared.datasets.length)
    (hshard : shard < x.prepared.count) :
    (joinTask x.prepared.datasets x.sets (.scratch x.dir) schedules.waits shard).Reads
      (shardPlace x.dir dataset shard) := by
  intro hblind
  let bare : Session := (x.split.admitting options).withFiles
    (x.split.files.erase (shardPlace x.dir dataset shard))
  have hbare : Session.DifferAt (shardPlace x.dir dataset shard) (x.split.admitting options) bare :=
    ⟨rfl, agreeOn_erase fun hne => hne rfl⟩
  have hpermit : 0 < bare.permits := show 0 < max options.maxInFlight 1 by omega
  -- the task succeeds with the file, so that it would have to succeed without it
  obtain ⟨part, u, halone⟩ := x.alone_joining hjoins hshard
  obtain ⟨u', halone'⟩ := hblind.alone hbare halone
  obtain ⟨r, v', hr, -, hjoined⟩ := (joinTask_ensures x.not_spelled
    (fun set hset => x.fits hshard set hset) _ hpermit).alone
  cases halone'.symm.trans hr
  obtain ⟨table, -, htable, -⟩ := hjoined.1 part rfl
  obtain ⟨⟨set, hset, hfile⟩, -⟩ := x.split_set hcount hdataset hshard
  have hpair : (x.prepared.datasets[dataset], set) ∈ x.prepared.datasets.zip x.sets :=
    List.mem_of_getElem? (List.getElem?_zip_eq_some.2 ⟨List.getElem?_eq_getElem hdataset, hset⟩)
  obtain ⟨content, hread⟩ := htable.read (List.mem_map.2 ⟨_, hpair, rfl⟩)
  dsimp only at hread
  rw [hfile] at hread
  have hthere : bare.files.nodeAt? (shardPlace x.dir dataset shard) = some (.file content) :=
    (nodeAt?_of_read hread).1
  have hgone : bare.files.nodeAt? (shardPlace x.dir dataset shard) = none :=
    (nodeAt?_erase _ _ _).trans (if_pos rfl)
  cases hgone.symm.trans hthere

end Job.Split

/-- In a run of two shards the task of the first dataset writes the file of its first shard, and the
task of the first shard reads and removes it. The task of the second shard has nothing to do with
it. -/
theorem run_separates_pair : ∃ (dir : Scratch) (splits : List (Task Session ShardSet))
    (joins : List (Task Session Part)) (u v : Session) (split : Task Session ShardSet)
    (first second : Task Session Part),
    pairJob.Begins twoShards .sequential (.ofFiles pairFiles) .sharding ShardSet splits u ∧
      pairJob.Begins twoShards .sequential (.ofFiles pairFiles) .shardJoin Part joins v ∧
      splits[0]? = some split ∧ joins[0]? = some first ∧ joins[1]? = some second ∧
      split.Writes (shardPlace dir 0 0) ∧ first.Reads (shardPlace dir 0 0) ∧
      first.Writes (shardPlace dir 0 0) ∧
      ¬ (second.Reads (shardPlace dir 0 0) ∨ second.Writes (shardPlace dir 0 0)) := by
  have hcount : pairJob.shardCount twoShards pairFiles = .ok 2 := by decide
  obtain ⟨w, hdatasets⟩ : ∃ w : pairJob.Worked twoShards .sequential (.ofFiles pairFiles),
      w.prepared.datasets = pairJob.datasets :=
    worked_of_loads (by decide) hcount (plain_pairJob 2) provided_pairJob loads_pairJob
  have htwo : w.prepared.count = 2 := Except.ok.inj (w.shardCount.symm.trans hcount)
  let x := w.toSplit
  have hmany : 1 < x.prepared.count := by
    show 1 < w.prepared.count
    omega
  have hfirst : 0 < x.prepared.datasets.length := by
    show 0 < w.prepared.datasets.length
    rw [hdatasets]
    decide
  have hsome : 0 < x.prepared.count := by omega
  obtain ⟨split, hsplit, hwrites⟩ := x.writes_sharding hmany hfirst hsome
  have hjoins : ∀ shard, shard < x.prepared.count →
      (joiningTasks x.prepared.datasets x.sets (.scratch x.dir) Schedules.sequential.waits
        x.prepared.count)[shard]? = some (joinTask x.prepared.datasets x.sets (.scratch x.dir)
          Schedules.sequential.waits shard) := by
    intro shard hshard
    simp [joiningTasks, hshard]
  refine ⟨x.dir, _, _, _, _, split, _, _, x.begins_sharding, x.begins_joining, hsplit,
    hjoins 0 hsome, hjoins 1 hmany, hwrites, x.reads_joining w.joins hmany hfirst hsome,
    x.writes_joining hmany hfirst hsome, fun huses => ?_⟩
  obtain ⟨dir, -, hhands⟩ := (run_separates.2.2.2 _ _ _ _ _ _ _ _ x.begins_sharding).2 _ _ _ _
    x.begins_joining 0 1 _ _ _ hsplit (hjoins 1 hmany) (by simp) hwrites huses
  -- the file would be one of the second shard
  cases hhands with
  | forth hplace =>
    have hname : shardName 0 0 = shardName 0 1 := by
      simpa [shardPlace] using (List.append_inj' hplace rfl).2
    exact absurd (shardName_inj hname).2 (by decide)

end Equijoin
