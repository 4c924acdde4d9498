import Equijoin.Proofs.Runs.Publication
import Equijoin.Proofs.Stages.Releasing

/-! # What a run leaves alone

Whatever becomes of a run, the two places of its output are all that it changes. While it works, it
reports a shard as finished only after it has removed the files of that shard.

* `Job.Split`: a run whose datasets are split, and the sessions that joining their shards reaches.
* `Job.Split.held`: every shard file is the file of a set.
* `Job.Split.unreported`: before shards are joined, none is reported as finished.
* `agrees_run`: a run changes nothing but the places of its output.
* `run_remains`: the same for whoever looks at paths, and for the moment when a shard is finished.
-/

set_option autoImplicit false

namespace Equijoin

open FileTree

variable {job : Job} {options : Options} {schedules : Schedules} {s : Session}

/-! ## Before shards are joined -/

/-- No shard has been reported as finished meanwhile. -/
def Unreported (s u : Session) : Prop :=
  ∀ shard rows, .shardFinished shard rows ∈ u.events → .shardFinished shard rows ∈ s.events

namespace Unreported

theorem refl (s : Session) : Unreported s s := fun _ _ h => h

theorem trans (s u v : Session) (h : Unreported s u) (h' : Unreported u v) : Unreported s v :=
  fun shard rows hv => h shard rows (h' shard rows hv)

theorem append {s u : Session} {more : List Event} (h : u.events = s.events ++ more)
    (hmore : ∀ e ∈ more, ∀ shard rows, e ≠ .shardFinished shard rows) : Unreported s u := by
  intro shard rows hu
  rw [h] at hu
  rcases List.mem_append.1 hu with hs | hs
  · exact hs
  · exact absurd rfl (hmore _ hs shard rows)

theorem emit {s : Session} {e : Event} (h : ∀ shard rows, e ≠ .shardFinished shard rows) :
    Unreported s (s.emit e) :=
  append rfl fun e' he' => by
    rw [List.mem_singleton.1 he']
    exact h

end Unreported

theorem Task.stays_any {σ α : Type} (t : Task σ α) (s : σ) :
    t.Stays (fun _ _ => True) s fun _ _ => True := by
  induction t generalizing s with
  | done r => trivial
  | look next ih => exact fun raised => ih raised s
  | step change next ih => exact fun u v _ _ => ⟨trivial, ih u v⟩

theorem unreported_onFiles {α : Type} (t : Task FileTree α) (s : Session) :
    t.onFiles.Stays Unreported s fun _ _ => True :=
  Task.Stays.within (fun _ _ => rfl) (fun _ _ _ => trivial) (fun a _ _ => Unreported.refl a)
    (t.stays_any s.files) fun _ _ => trivial

theorem unreported_shardTask {i count : Nat} {folder : Folder} (d : Dataset) (s : Session) :
    (shardTask count folder i d).Stays Unreported s fun _ _ => True := by
  have hend : ∀ (set : ShardSet) (u : Session),
      ((Task.emit (.datasetSharded i set.rows)).bind fun _ => Task.succeed set).Stays Unreported u
        fun _ _ => True := by
    intro set u
    refine Task.Stays.seq (Task.stays_act fun v _ => ⟨?_, trivial⟩) fun _ _ => trivial
    exact Unreported.emit fun _ _ he => (nomatch he)
  unfold shardTask
  refine Task.Stays.seq (unreported_onFiles _ s) fun set u => ?_
  dsimp only
  split
  · exact Task.Stays.seq (Task.stays_act fun v _ => ⟨Unreported.refl v, trivial⟩) fun _ v => hend set v
  · exact hend set u

/-- A part of a run that reports no shard as finished. -/
def Phase.Silent {α : Type} (p : Phase α) : Prop := ∀ s, Unreported s (p s).2

theorem Phase.Silent.bind {α β : Type} {p : Phase α} {f : α → Phase β} (h : p.Silent)
    (hrest : ∀ a, (f a).Silent) : (p >>= f).Silent := by
  intro s
  have hp := h s
  rcases Phase.bind_cases p f s with ⟨a, v, hv, hbind⟩ | ⟨fault, v, hv, hbind⟩
  · rw [hv] at hp
    rw [hbind]
    exact Unreported.trans _ _ _ hp (hrest a v)
  · rw [hv] at hp
    rw [hbind]
    exact hp

theorem Phase.silent_outcome {α : Type} (r : Outcome α) : (Phase.ofOutcome r).Silent :=
  fun s => Unreported.refl s

theorem Phase.silent_enter (stage : Stage) : (Phase.enter stage).Silent :=
  fun _ => Unreported.emit fun _ _ he => (nomatch he)

theorem silent_decideShards (options : Options) (datasets : List Dataset) :
    (decideShards options datasets).Silent := by
  unfold decideShards
  refine Phase.Silent.bind (fun s => Unreported.refl s) fun files => ?_
  refine Phase.Silent.bind (Phase.silent_outcome _) fun largest => ?_
  refine Phase.Silent.bind (fun s => ?_) fun _ s => Unreported.refl s
  exact Unreported.emit fun _ _ he => (nomatch he)

theorem silent_coerceDatasets (schedule : Schedule) (datasets : List Dataset) :
    (coerceDatasets schedule datasets).Silent := by
  intro s
  have htasks : Unreported s (fanOut schedule (coercionTasks datasets) s).2 := by
    refine fanOut_stays Unreported.refl Unreported.trans (fun task htask => ?_) schedule
    obtain ⟨d, -, rfl⟩ := List.mem_map.1 htask
    exact unreported_onFiles _ s
  rw [coerceDatasets_apply]
  rcases hx : fanOut schedule (coercionTasks datasets) s with ⟨r, v⟩
  rw [hx] at htasks
  cases r with
  | error fault => exact htasks
  | ok values =>
    refine Unreported.trans _ _ _ htasks (Unreported.append rfl fun e he shard rows hfinished => ?_)
    obtain ⟨p, -, rfl⟩ := List.mem_map.1 he
    cases hfinished

theorem silent_prepared (job : Job) (options : Options) (schedule : Schedule) :
    (job.prepared options schedule).Silent := by
  unfold Job.prepared Job.opening
  refine Phase.Silent.bind ?_ fun count => ?_
  · refine Phase.Silent.bind (Phase.silent_enter _) fun _ => ?_
    refine Phase.Silent.bind (Phase.silent_outcome _) fun _ => ?_
    exact Phase.Silent.bind (Phase.silent_enter _) fun _ => silent_decideShards _ _
  · refine Phase.Silent.bind (silent_coerceDatasets _ _) fun x => ?_
    refine Phase.Silent.bind (Phase.silent_outcome _) fun merged => ?_
    exact Phase.Silent.bind (Phase.silent_enter _) fun _ s => Unreported.refl s

/-! ## Runs whose datasets are split -/

/-- What a run has come to, once all of its datasets are split. -/
structure Job.Split (job : Job) (options : Options) (schedules : Schedules) (s : Session) where
  prepared : Job.Prepared
  /-- The session before the scratch directory is made. -/
  ready : Session
  dir : Scratch
  /-- The files among which datasets are split. -/
  files : FileTree
  sets : List ShardSet
  /-- The session in which all datasets are split. -/
  split : Session
  prepares : job.prepared options schedules.coercion (s.begin job) = (.ok prepared, ready)
  creates : ready.files.createScratch options.scratchParent = .ok (files, dir)
  splits : fanOut schedules.sharding
    (shardingTasks prepared.count (.scratch dir) prepared.datasets) (ready.withFiles files) =
      (.ok sets, split)

/-- A run whose tasks have all succeeded has come there. -/
def Job.Worked.toSplit (w : job.Worked options schedules s) : job.Split options schedules s where
  prepared := w.prepared
  ready := w.ready
  dir := w.dir
  files := w.files
  sets := w.sets
  split := w.split
  prepares := w.prepares
  creates := w.creates
  splits := w.splits

namespace Job.Split

/-- The session that joining the shards has reached after the steps of a schedule. -/
def reached (x : job.Split options schedules s) (schedule : Schedule) : Session :=
  ((Pool.start (joiningTasks x.prepared.datasets x.sets (.scratch x.dir) schedules.waits
    x.prepared.count) (x.split.admitting options)).run schedule).state

theorem not_spelled (x : job.Split options schedules s) : ¬ x.dir.location.Spelled :=
  scratch_not_spelled x.creates

theorem fits (x : job.Split options schedules s) {shard : Nat} (hshard : shard < x.prepared.count)
    (set : ShardSet) (hset : set ∈ x.sets) : set.Fits x.dir shard := by
  obtain ⟨hlength, hsets⟩ := sharding_values x.not_spelled x.splits
  exact sets_fit hlength hsets shard hshard set hset

/-- The directory stands while datasets are split, as it is no shard file. -/
theorem node?_dir (x : job.Split options schedules s) :
    x.split.files.node? x.dir.location = some .directory := by
  have hkeep := sharding_keeps x.not_spelled schedules.sharding x.prepared.datasets
    x.prepared.count (x.ready.withFiles x.files)
  rw [x.splits] at hkeep
  have hmade : x.files.node? x.dir.location = some .directory := by
    obtain ⟨k, -, hdir, hfiles⟩ := createScratch_eq_ok.1 x.creates
    have hname : x.dir.location.all (· == .above) = false := by
      rw [hdir]
      simp
    rw [hfiles, node?_eq, hname, nodeAt?_put, if_pos rfl]
    rfl
  rw [← hmade]
  refine (hkeep.node? fun i hi => ?_).symm
  obtain ⟨shard, hplace⟩ := hi
  exact location_ne_append _ _ hplace

/-- The directory is empty at first. -/
theorem nodeAt?_new (x : job.Split options schedules s) (i shard : Nat) :
    x.files.nodeAt? (shardPlace x.dir i shard) = none := by
  obtain ⟨k, -, hdir, hfiles⟩ := createScratch_eq_ok.1 x.creates
  have hne : shardPlace x.dir i shard ≠ x.dir.location := (location_ne_append _ _).symm
  rw [hfiles, nodeAt?_put, if_neg hne]
  refine nodeAt?_fresh _ ?_
  rw [shardPlace, hdir]
  simp

theorem files_single (x : job.Split options schedules s) (hcount : x.prepared.count ≤ 1) :
    x.split.files = x.files := by
  have hstays : (fanOut schedules.sharding (shardingTasks x.prepared.count (.scratch x.dir)
      x.prepared.datasets) (x.ready.withFiles x.files)).2.files = x.files := by
    refine fanOut_stays (R := fun u v : Session => v.files = u.files) (fun _ => rfl)
      (fun u v w h h' => h'.trans h) (fun task htask => ?_) schedules.sharding
    obtain ⟨⟨d, i⟩, -, rfl⟩ := List.mem_map.1 htask
    dsimp only [shardTask, Dataset.shard]
    rw [if_pos hcount]
    -- the set of a dataset that is not split is the dataset itself, and it is only reported
    show ((Task.emit (.datasetSharded i none)).bind fun _ => Task.succeed _).Stays _ _ _
    exact Task.Stays.seq (Task.stays_act fun u _ => ⟨rfl, trivial⟩) fun _ _ => trivial
  rw [x.splits] at hstays
  exact hstays

/-- Every shard file is the file of a set. -/
theorem held (x : job.Split options schedules s) {shard : Nat} (hshard : shard < x.prepared.count) :
    ShardHeld x.dir x.sets shard x.split.files := by
  refine ⟨x.node?_dir, fun i => ?_⟩
  by_cases hcount : x.prepared.count ≤ 1
  · left
    rw [x.files_single hcount]
    exact x.nodeAt?_new i shard
  obtain ⟨hlength, hsets⟩ := sharding_values x.not_spelled x.splits
  by_cases hi : i < x.prepared.datasets.length
  · right
    have hset : x.sets[i]? = some x.sets[i] := List.getElem?_eq_getElem (by omega)
    rcases hsets i _ _ (List.getElem?_eq_getElem hi) hset with
      ⟨hone, -⟩ | ⟨-, sheet, types, places, routed, -, hfiles, hreads⟩
    · exact absurd hone hcount
    obtain ⟨hfile, hsize⟩ := nodeAt?_of_read (hreads shard hshard)
    refine ⟨⟨_, hfile⟩, hsize, x.sets[i], List.getElem_mem _, by rw [hfiles]; rfl, ?_⟩
    rw [hfiles]
    simp [ShardSet.file, shardFiles, hshard]
  · -- there is no task for the dataset, so that nobody makes its files
    left
    have htasks : (shardingTasks x.prepared.count (.scratch x.dir)
        x.prepared.datasets).length ≤ i := by
      rw [shardingTasks, List.length_map, List.length_zipIdx]
      omega
    have hothers := (fanOut_orderly (orderly_sharding x.not_spelled x.prepared.count
      x.prepared.datasets (x.ready.withFiles x.files)) (AgreeOn.refl _ _) Nat.one_pos
      schedules.sharding).1 i htasks
    rw [x.splits] at hothers
    have hunowned : Unowned (ownsShards x.dir) i (shardPlace x.dir i shard) := by
      intro j hj howns
      exact hj (ownsShards_unique howns ⟨shard, rfl⟩)
    rw [← hothers.2 _ hunowned]
    exact x.nodeAt?_new i shard

theorem unreported (x : job.Split options schedules s) (shard rows : Nat) :
    .shardFinished shard rows ∉ (x.split.admitting options).events := by
  have hprepared := silent_prepared job options schedules.coercion (s.begin job)
  rw [x.prepares] at hprepared
  have hsplit : Unreported (x.ready.withFiles x.files) x.split := by
    have hstays : Unreported (x.ready.withFiles x.files) (fanOut schedules.sharding (shardingTasks
        x.prepared.count (.scratch x.dir) x.prepared.datasets) (x.ready.withFiles x.files)).2 := by
      refine fanOut_stays Unreported.refl Unreported.trans (fun task htask => ?_) schedules.sharding
      obtain ⟨p, -, rfl⟩ := List.mem_map.1 htask
      exact unreported_shardTask p.1 _
    rw [x.splits] at hstays
    exact hstays
  intro h
  have henter : Unreported x.split (x.split.enter .shardJoin) :=
    Unreported.emit fun _ _ he => (nomatch he)
  have hbegin := hprepared shard rows (hsplit shard rows (henter shard rows h))
  cases List.mem_singleton.1 hbegin

/-- Wherever joining has come to, a shard that is reported as finished has no files. -/
theorem cleared (x : job.Split options schedules s) {schedule : Schedule} {shard rows : Nat}
    (h : .shardFinished shard rows ∈ (x.reached schedule).events) :
    x.dir.Cleared shard (x.reached schedule).files := by
  have hstart : Pool.Stays (Releases x.dir) (x.split.admitting options)
      (Pool.start (joiningTasks x.prepared.datasets x.sets (.scratch x.dir) schedules.waits
        x.prepared.count) (x.split.admitting options)) := by
    refine Pool.Stays.start (Releases.refl x.dir) fun task htask => ?_
    obtain ⟨n, hn, rfl⟩ := List.mem_map.1 htask
    have hn := List.mem_range.1 hn
    exact joinTask_stays (x.fits hn) _ (x.held hn)
  have hreached := (hstart.run (Releases.refl x.dir) Releases.trans schedule).reached
  exact (hreached.events shard rows h).elim (fun hbefore => absurd hbefore (x.unreported _ _)) id

end Job.Split

/-! ## After a run -/

/-- The location is none of the two places of an output. -/
def Output.Apart (output : Output) (t : FileTree) (l : Location) : Prop :=
  t.destination output.dataPath ≠ .ok l ∧ t.destination output.schemaPath ≠ .ok l

/-- How a run leaves the files: as they were, or with a file at one or both places of its output. -/
theorem run_files (job : Job) (options : Options) (schedules : Schedules) (elapsed : Duration)
    (s : Session) :
    Same s.files (job.run options schedules elapsed s).2.files ∨
    ∃ data c, s.files.destination job.output.dataPath = .ok data ∧
      (Same (s.files.put data (.file c)) (job.run options schedules elapsed s).2.files ∨
      ∃ schema c', s.files.destination job.output.schemaPath = .ok schema ∧
        Same ((s.files.put data (.file c)).put schema (.file c'))
          (job.run options schedules elapsed s).2.files) := by
  rw [run_eq, conclude_files]
  by_cases hworked : IsEmpty (job.Worked options schedules s)
  · obtain ⟨fault, v, hstages, hv⟩ := stages_unworked hworked
    rw [hstages]
    exact .inl hv
  · obtain ⟨w⟩ := not_isEmpty_iff.1 hworked
    obtain ⟨tables, htables, -⟩ := w.stores
    rcases w.ends htables with ⟨fault, v, hstages, hv, -⟩ |
      ⟨fault, v, columns, data, hstages, -, hpub, -, hv⟩ |
        ⟨v, columns, data, schema, d, hstages, -, hpub, hschema, -, hv⟩
    · rw [hstages]
      exact .inl hv
    · rw [hstages]
      exact .inr ⟨data, _, hpub.place, .inl hv⟩
    · rw [hstages]
      exact .inr ⟨data, _, hpub.place, .inr ⟨schema, _, hschema, hv⟩⟩

theorem agreeOn_put_apart {output : Output} {t u : FileTree} {l : Location} (n : Node)
    (h : AgreeOn (output.Apart t) t u) (hl : ¬ output.Apart t l) :
    AgreeOn (output.Apart t) t (u.put l n) := h.trans (agreeOn_put n hl)

/-- A run changes nothing but the places of its output. -/
theorem agrees_run (job : Job) (options : Options) (schedules : Schedules) (elapsed : Duration)
    (s : Session) : AgreeOn (job.output.Apart s.files) s.files
      (job.run options schedules elapsed s).2.files := by
  rcases run_files job options schedules elapsed s with
    hv | ⟨data, c, hdata, hv | ⟨schema, c', hschema, hv⟩⟩
  · exact hv.mono fun _ _ => trivial
  · have hput := agreeOn_put_apart (.file c) (AgreeOn.refl _ s.files) fun hl => hl.1 hdata
    exact hput.trans (hv.mono fun _ _ => trivial)
  · have hput := agreeOn_put_apart (.file c) (AgreeOn.refl _ s.files) fun hl => hl.1 hdata
    have hboth := agreeOn_put_apart (.file c') hput fun hl => hl.2 hschema
    exact hboth.trans (hv.mono fun _ _ => trivial)

/-- A run makes and removes no directory. -/
theorem keeps_run (job : Job) (options : Options) (schedules : Schedules) (elapsed : Duration)
    (s : Session) : Keeps s.files (job.run options schedules elapsed s).2.files ∧
      Keeps (job.run options schedules elapsed s).2.files s.files := by
  have hsame : ∀ {t u : FileTree}, Same t u → Keeps t u ∧ Keeps u t := by
    intro t u h
    have hspelled : AgreeOn Location.Spelled t u := h.mono fun _ _ => trivial
    exact ⟨hspelled.keeps, hspelled.symm.keeps⟩
  rcases run_files job options schedules elapsed s with
    hv | ⟨data, c, hdata, hv | ⟨schema, c', hschema, hv⟩⟩
  · exact hsame hv
  · have hplace := node?_destination hdata
    obtain ⟨hto, hfrom⟩ := hsame hv
    exact ⟨(keeps_put_file c hplace).trans hto, hfrom.trans (put_file_keeps c hplace)⟩
  · have hplace := node?_destination hdata
    have hplace' : (s.files.put data (.file c)).node? schema ≠ some .directory :=
      fun hd => node?_destination hschema ((directory_put_file c hplace).1 hd)
    obtain ⟨hto, hfrom⟩ := hsame hv
    refine ⟨((keeps_put_file c hplace).trans (keeps_put_file c' hplace')).trans hto, ?_⟩
    exact (hfrom.trans (put_file_keeps c' hplace')).trans (put_file_keeps c hplace)

/-- A run touches nothing but its output. Whatever becomes of it, every location but the two places
of its output holds what it held before, and every path leads where it led before; so whatever a
path names elsewhere, an input among others, reads as before. And whenever a shard is reported as
finished, no dataset has a file for it any more. -/
theorem run_remains (job : Job) (options : Options) (schedules : Schedules) (elapsed : Duration)
    (s : Session) :
    AgreeOn (job.output.Apart s.files) s.files (job.run options schedules elapsed s).2.files ∧
    (∀ path l, (job.run options schedules elapsed s).2.files.resolve path = .ok l ↔
      s.files.resolve path = .ok l) ∧
    (∀ path l, s.files.resolve path = .ok l → job.output.Apart s.files l →
      (job.run options schedules elapsed s).2.files.read path = s.files.read path) ∧
    ∀ (x : job.Split options schedules s) (schedule : Schedule) (shard rows : Nat),
      .shardFinished shard rows ∈ (x.reached schedule).events →
        ∀ i, (x.reached schedule).files.nodeAt? (shardPlace x.dir i shard) = none := by
  have hagree := agrees_run job options schedules elapsed s
  obtain ⟨hto, hfrom⟩ := keeps_run job options schedules elapsed s
  refine ⟨hagree, fun path l => ⟨hfrom.resolve, hto.resolve⟩, fun path l hl hapart => ?_,
    fun x schedule shard rows h => x.cleared h⟩
  have hafter := hto.resolve hl
  simp only [FileTree.read, FileTree.locate, hl, hafter, ok_bind, hagree.node? hapart]

end Equijoin
