import Equijoin.Proofs.Runs.Sequel

/-! # Schedules make no difference

How the steps of tasks interleave decides neither what a run comes to nor what it leaves behind; it
decides only which of several faults is reported.

* `stages_concur`: if the tasks of every stage that a run comes to succeed alone, the run is that
  of any other schedules.
* `Job.Begins.fails`: if not, the run fails with a fault to which one of them comes alone.
* `run_sequential`: both, and that the flag of a stage is raised only after a task has failed.
-/

set_option autoImplicit false

namespace Equijoin

open FileTree

/-- A report without the counters, which depend on how many tasks are under way at a time. -/
def Report.unmetered (r : Report) : Report := { r with metrics := Metrics.zero.snapshot }

variable {job : Job} {options : Options} {schedules schedules' : Schedules} {s u : Session}

/-! ## From the stages to the run -/

theorem conclude_unmetered (elapsed : Duration) (x : Outcome Report × Session) :
    (conclude elapsed x).1.map Report.unmetered = x.1.map Report.unmetered := by
  obtain ⟨r, s⟩ := x
  cases r <;> rfl

/-! ## The same result, and the same files -/

theorem coerceDatasets_concur (hall : AllSucceed (coercionTasks job.datasets) u)
    (schedule schedule' : Schedule) :
    Concur (coerceDatasets schedule job.datasets u) (coerceDatasets schedule' job.datasets u) := by
  obtain ⟨values, hok, hok', hfiles⟩ := fanOut_alike (orderly_coercion job.datasets u)
    (orderly_coercion job.datasets u) (Paired.refl _ _ _) hall (AgreeOn.refl _ _)
    (AgreeOn.refl _ _) Nat.one_pos Nat.one_pos schedule schedule'
  rw [coerceDatasets_apply, coerceDatasets_apply]
  rcases hx : fanOut schedule (coercionTasks job.datasets) u with ⟨r, v⟩
  rcases hy : fanOut schedule' (coercionTasks job.datasets) u with ⟨r', v'⟩
  rw [hx] at hok hfiles
  rw [hy] at hok' hfiles
  obtain rfl : r = .ok values := hok
  obtain rfl : r' = .ok values := hok'
  exact ⟨rfl, hfiles⟩

theorem prepared_concur (schedules' : Schedules)
    (hall : ∀ stage α tasks u, job.Begins options schedules s stage α tasks u →
      AllSucceed tasks u) :
    Concur (job.prepared options schedules.coercion (s.begin job))
      (job.prepared options schedules'.coercion (s.begin job)) := by
  refine Concur.bind ⟨rfl, AgreeOn.refl _ _⟩ fun count v w hv hw _ => ?_
  cases hv.symm.trans hw
  refine Concur.bind (coerceDatasets_concur (hall _ _ _ _ (.coercion hv)) _ _)
    fun p _ _ _ _ h => ?_
  refine Concur.bind (Concur.ofOutcome _ h) fun merged _ _ hs hv _ => ?_
  cases congrArg Prod.snd hs
  cases congrArg Prod.snd hv
  exact Concur.bind (Concur.change rfl rfl h) fun _ _ _ _ _ h => ⟨rfl, h⟩

theorem createScratch_alike {t t' : FileTree} (h : Same t t') (dir : String) :
    Alike (fun x y => Same x.1 y.1 ∧ x.2 = y.2) (t.createScratch dir) (t'.createScratch dir) := by
  unfold createScratch
  rw [(h.mono fun _ _ => trivial : AgreeOn Location.Spelled t t').freshPlace_eq h.nextSerial]
  cases t'.freshPlace dir scratchNameSize with
  | error fault => exact rfl
  | ok l => exact ⟨h.put l _, by simp only [pathSize, h.1]⟩

theorem joinDatasets_concur {p : Job.Prepared} {v w : Session} {files : FileTree}
    {scratch : Scratch} (hprepared : job.prepared options schedules.coercion (s.begin job) =
      (.ok p, v)) (hscratch : v.files.createScratch options.scratchParent = .ok (files, scratch))
    (schedules' : Schedules) (hall : ∀ stage α tasks u,
      job.Begins options schedules s stage α tasks u → AllSucceed tasks u)
    (hw : Same files w.files) :
    Concur (joinDatasets options schedules p.datasets p.count (.scratch scratch)
        (v.withFiles files))
      (joinDatasets options schedules' p.datasets p.count (.scratch scratch) w) := by
  have hdir := scratch_not_spelled hscratch
  have horderly := orderly_sharding hdir p.count p.datasets (v.withFiles files)
  obtain ⟨sets, hok, hok', hfiles⟩ := fanOut_alike horderly horderly
    (Paired.refl _ _ _) (hall _ _ _ _ (.sharding hprepared hscratch)) (AgreeOn.refl _ _) hw
    Nat.one_pos Nat.one_pos schedules.sharding schedules'.sharding
  rw [joinDatasets_apply, joinDatasets_apply]
  rcases hx : fanOut schedules.sharding (shardingTasks p.count (.scratch scratch) p.datasets)
    (v.withFiles files) with ⟨r, x⟩
  rcases hy : fanOut schedules'.sharding (shardingTasks p.count (.scratch scratch) p.datasets)
    w with ⟨r', y⟩
  rw [hx] at hok hfiles
  rw [hy] at hok' hfiles
  obtain rfl : r = .ok sets := hok
  obtain rfl : r' = .ok sets := hok'
  -- shards are joined from the same files, by tasks that differ in their waits
  obtain ⟨hlength, hsplit⟩ := sharding_values hdir hx
  have hpermit : 0 < max options.maxInFlight 1 := by omega
  have hjoining := fun waits => orderly_joining p.datasets waits hdir (sets_fit hlength hsplit)
    (o := x.admitting options) hpermit
  have hpaired := paired_joining p.datasets schedules.waits schedules'.waits hdir
    (sets_fit hlength hsplit) (o := x.admitting options) hpermit
  obtain ⟨parts, hok, hok', hfiles⟩ := fanOut_alike (hjoining _) (hjoining _) hpaired
    (hall _ _ _ _ (.joining hprepared hscratch hx)) (AgreeOn.refl _ _)
    (show Same (x.admitting options).files (y.admitting options).files from hfiles) hpermit hpermit
    schedules.joining schedules'.joining
  exact ⟨hok.trans hok'.symm, hfiles⟩

/-- If all tasks of the stages that a run comes to succeed alone, the run does not depend on its
schedules. -/
theorem stages_concur (schedules' : Schedules)
    (hall : ∀ stage α tasks u, job.Begins options schedules s stage α tasks u →
      AllSucceed tasks u) :
    Concur (job.stages options schedules (s.begin job))
      (job.stages options schedules' (s.begin job)) := by
  rw [Job.stages_eq, Job.stages_eq]
  refine Concur.bind (prepared_concur schedules' hall) fun p v w hv _ h => ?_
  have hscratch := createScratch_alike h options.scratchParent
  unfold Phase.withScratch
  cases ht : v.files.createScratch options.scratchParent with
  | error fault =>
    rw [hscratch.error ht]
    exact ⟨rfl, h⟩
  | ok x =>
    obtain ⟨files, scratch⟩ := x
    obtain ⟨⟨files', scratch'⟩, hu, hfiles, hdir⟩ := hscratch.ok ht
    obtain rfl : scratch = scratch' := hdir
    rw [hu]
    dsimp only
    have hbody : Concur (job.inScratch options schedules p scratch (v.withFiles files))
        (job.inScratch options schedules' p scratch (w.withFiles files')) := by
      refine Concur.bind (joinDatasets_concur hv ht schedules' hall hfiles)
        fun parts _ _ _ _ h => ?_
      exact Concur.bind (emitOutput_concur h _ _ _) fun x _ _ _ _ h => ⟨rfl, h⟩
    exact ⟨hbody.1, hbody.2.eraseBelow _⟩

/-! ## Failures -/

theorem stages_of_prepared_error {fault : Fault}
    (h : (job.prepared options schedules.coercion (s.begin job)).1 = .error fault) :
    (job.stages options schedules (s.begin job)).1 = .error fault := by
  rw [Job.stages_eq]
  rcases hp : job.prepared options schedules.coercion (s.begin job) with ⟨r, v⟩
  rw [hp] at h
  obtain rfl : r = .error fault := h
  rw [Phase.bind_of_error hp]

theorem stages_of_joinDatasets_error {p : Job.Prepared} {v : Session} {files : FileTree}
    {scratch : Scratch} {fault : Fault}
    (hprepared : job.prepared options schedules.coercion (s.begin job) = (.ok p, v))
    (hscratch : v.files.createScratch options.scratchParent = .ok (files, scratch))
    (h : (joinDatasets options schedules p.datasets p.count (.scratch scratch)
      (v.withFiles files)).1 = .error fault) :
    (job.stages options schedules (s.begin job)).1 = .error fault := by
  rw [Job.stages_eq, Phase.bind_of_ok hprepared]
  unfold Phase.withScratch
  rw [hscratch]
  dsimp only
  rcases hj : joinDatasets options schedules p.datasets p.count (.scratch scratch)
    (v.withFiles files) with ⟨r, w⟩
  rw [hj] at h
  obtain rfl : r = .error fault := h
  unfold Job.inScratch
  rw [Phase.bind_of_error hj]

/-- A task of a stage fails alone, and so does the run. -/
def FailsWith (job : Job) (options : Options) (schedules : Schedules) (s : Session) {α : Type}
    (tasks : List (Task Session α)) (u : Session) : Prop :=
  ∃ t ∈ tasks, ∃ fault v, t.alone false u = some (.error fault, v) ∧ fault ≠ .cancelled ∧
    (job.stages options schedules (s.begin job)).1 = .error fault

theorem Job.Begins.fails {stage : Stage} {α : Type} {tasks : List (Task Session α)}
    (h : job.Begins options schedules s stage α tasks u) (hnot : ¬ AllSucceed tasks u) :
    FailsWith job options schedules s tasks u := by
  cases h with
  | @coercion count u hopening =>
    rcases fanOut_cases (orderly_coercion job.datasets u) (AgreeOn.refl _ _) Nat.one_pos
      schedules.coercion with ⟨hall, -⟩ | ⟨t, ht, fault, v, herror, hne, halone⟩
    · exact absurd hall hnot
    · refine ⟨t, ht, fault, v, halone, hne, stages_of_prepared_error ?_⟩
      have hcoerce := coerceDatasets_apply schedules.coercion job.datasets u
      rcases hx : fanOut schedules.coercion (coercionTasks job.datasets) u with ⟨r, w⟩
      rw [hx] at herror hcoerce
      obtain rfl : r = .error fault := herror
      unfold Job.prepared
      rw [Phase.bind_of_ok hopening, Phase.bind_of_error hcoerce]
  | @sharding p u files scratch hprepared hscratch =>
    have horderly := orderly_sharding (scratch_not_spelled hscratch) p.count p.datasets
      (u.withFiles files)
    rcases fanOut_cases horderly (AgreeOn.refl _ _) Nat.one_pos schedules.sharding with
      ⟨hall, -⟩ | ⟨t, ht, fault, v, herror, hne, halone⟩
    · exact absurd hall hnot
    · refine ⟨t, ht, fault, v, halone, hne,
        stages_of_joinDatasets_error hprepared hscratch ?_⟩
      rw [joinDatasets_apply]
      rcases hx : fanOut schedules.sharding (shardingTasks p.count (.scratch scratch) p.datasets)
        (u.withFiles files) with ⟨r, w⟩
      rw [hx] at herror
      obtain rfl : r = .error fault := herror
      rfl
  | @joining p u v files scratch sets hprepared hscratch hsets =>
    have hdir := scratch_not_spelled hscratch
    obtain ⟨hlength, hsplit⟩ := sharding_values hdir hsets
    have hpermit : 0 < max options.maxInFlight 1 := by omega
    have horderly := orderly_joining p.datasets schedules.waits hdir (sets_fit hlength hsplit)
      (o := v.admitting options) hpermit
    rcases fanOut_cases horderly (AgreeOn.refl _ _) hpermit schedules.joining with
      ⟨hall, -⟩ | ⟨t, ht, fault, w, herror, hne, halone⟩
    · exact absurd hall hnot
    · refine ⟨t, ht, fault, w, halone, hne,
        stages_of_joinDatasets_error hprepared hscratch ?_⟩
      rw [joinDatasets_apply, hsets]
      exact herror

theorem Job.Begins.earlier {stage stage' : Stage} {α β : Type} {tasks : List (Task Session α)}
    {tasks' : List (Task Session β)} {u' : Session}
    (h : job.Begins options schedules s stage α tasks u)
    (h' : job.Begins options schedules s stage' β tasks' u') (hrank : stage'.rank < stage.rank) :
    AllSucceed tasks' u' := by
  have hcoercion : ∀ {p : Job.Prepared} {v o : Session} {count : Nat},
      job.prepared options schedules.coercion (s.begin job) = (.ok p, v) →
      job.opening options (s.begin job) = (.ok count, o) →
      AllSucceed (coercionTasks job.datasets) o := by
    intro p v o count hprepared hopening
    obtain ⟨o', values, w, hopening', hvalues, -⟩ := prepared_eq_ok hprepared
    cases hopening.symm.trans hopening'
    exact allSucceed_of_ok (orderly_coercion _ _) Nat.one_pos hvalues
  cases h with
  | coercion h =>
    cases h' <;> exact absurd hrank (by decide)
  | sharding hprepared hscratch =>
    cases h' with
    | coercion hopening => exact hcoercion hprepared hopening
    | sharding => exact absurd hrank (by decide)
    | joining => exact absurd hrank (by decide)
  | joining hprepared hscratch hsets =>
    cases h' with
    | coercion hopening => exact hcoercion hprepared hopening
    | sharding hprepared' hscratch' =>
      cases hprepared.symm.trans hprepared'
      cases hscratch.symm.trans hscratch'
      exact allSucceed_of_ok (orderly_sharding (scratch_not_spelled hscratch) _ _ _) Nat.one_pos
        hsets
    | joining => exact absurd hrank (by decide)

/-! ## Runs -/

/-- A run is transparent to its schedules. If all tasks of the stages that it comes to succeed
alone, it comes to what the run comes to whose tasks go one after another, and leaves the same
files; otherwise it fails with the fault to which some task of the first failing stage comes alone.
In no reachable pool of a stage is the flag raised before a task of the stage has failed, and not
for having found it raised. -/
theorem run_sequential (job : Job) (options : Options) (schedules : Schedules) (elapsed : Duration)
    (s : Session) :
    ((∀ stage α tasks u, job.Begins options schedules s stage α tasks u → AllSucceed tasks u) →
      (job.run options schedules elapsed s).1.map Report.unmetered =
          (job.run options .sequential elapsed s).1.map Report.unmetered ∧
        ∀ path : FilePath, (job.run options schedules elapsed s).2.files.read path =
          (job.run options .sequential elapsed s).2.files.read path) ∧
    (¬ (∀ stage α tasks u, job.Begins options schedules s stage α tasks u → AllSucceed tasks u) →
      ∃ stage α tasks u, job.Begins options schedules s stage α tasks u ∧
        (∀ stage' β tasks' u', job.Begins options schedules s stage' β tasks' u' →
          stage'.rank < stage.rank → AllSucceed tasks' u') ∧
        ∃ t ∈ tasks, ∃ fault v, t.alone false u = some (.error fault, v) ∧ fault ≠ .cancelled ∧
          (job.run options schedules elapsed s).1 = .error fault) ∧
    ∀ stage α tasks u, job.Begins options schedules s stage α tasks u → ∀ schedule : Schedule,
      ((Pool.start tasks u).run schedule).raised = true →
        ∃ (i : Nat) (fault : Fault),
          ((Pool.start tasks u).run schedule).members[i]? = some (.ended (.error fault)) ∧
            fault ≠ .cancelled := by
  refine ⟨fun hall => ?_, fun hnot => ?_, fun stage α tasks u h schedule hraised => ?_⟩
  · obtain ⟨hresult, hfiles⟩ := stages_concur .sequential hall
    rw [run_eq, run_eq, conclude_unmetered, conclude_unmetered, hresult]
    refine ⟨rfl, fun path => ?_⟩
    rw [conclude_files, conclude_files]
    exact AgreeOn.read hfiles path.seen_all
  · simp only [not_forall] at hnot
    obtain ⟨stage, α, tasks, u, h, hfail⟩ := hnot
    obtain ⟨t, ht, fault, v, halone, hne, herror⟩ := h.fails hfail
    exact ⟨stage, α, tasks, u, h, fun stage' β tasks' u' h' hrank => h.earlier h' hrank, t, ht,
      fault, v, halone, hne, (conclude_error elapsed).2 herror⟩
  · obtain ⟨owns, free, post, horderly, -⟩ := h.orderly
    exact horderly.cause schedule hraised

end Equijoin
