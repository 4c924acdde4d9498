import Equijoin.Proofs.Stages.Joining

/-! # The anatomy of runs

A run prepares its datasets, makes a scratch directory, splits the datasets, joins their shards and
publishes the output.

* `Phase.bind_eq_ok`, `Phase.bind_eq_error`: what it means that parts of a run succeed or fail.
* `Job.opening`, `Job.prepared`: the parts of a run up to its scratch directory.
* `Job.stages_eq`: a run in these parts.
* `Job.Begins`: the tasks of a stage that a run has come to, and the session in which they begin.
* `Job.Begins.orderly`: whatever stage a run has come to, its tasks own different files.
-/

set_option autoImplicit false

namespace Equijoin

open FileTree

/-! ## Phases -/

namespace Phase

variable {α β : Type} {p : Phase α} {f : α → Phase β} {s u : Session}

theorem bind_apply (p : Phase α) (f : α → Phase β) (s : Session) :
    (p >>= f) s = match p s with
      | (.ok a, s) => f a s
      | (.error fault, s) => (.error fault, s) := rfl

theorem bind_of_ok {a : α} (h : p s = (.ok a, u)) : (p >>= f) s = f a u := by
  rw [bind_apply, h]

theorem bind_of_error {fault : Fault} (h : p s = (.error fault, u)) :
    (p >>= f) s = (.error fault, u) := by
  rw [bind_apply, h]

theorem bind_eq_ok {b : β} :
    (p >>= f) s = (.ok b, u) ↔ ∃ a v, p s = (.ok a, v) ∧ f a v = (.ok b, u) := by
  rw [bind_apply]
  constructor
  · intro h
    split at h
    · rename_i a v hp
      exact ⟨a, v, hp, h⟩
    · cases h
  · rintro ⟨a, v, hp, hf⟩
    rw [hp]
    exact hf

/-- A chain of phases fails in the first or in the second part. -/
theorem bind_cases (p : Phase α) (f : α → Phase β) (s : Session) :
    (∃ a v, p s = (.ok a, v) ∧ (p >>= f) s = f a v) ∨
      ∃ fault v, p s = (.error fault, v) ∧ (p >>= f) s = (.error fault, v) := by
  rcases hp : p s with ⟨r, v⟩
  cases r with
  | ok a => exact .inl ⟨a, v, rfl, bind_of_ok hp⟩
  | error fault => exact .inr ⟨fault, v, rfl, bind_of_error hp⟩

theorem bind_assoc {γ : Type} (p : Phase α) (f : α → Phase β) (g : β → Phase γ) :
    (p >>= f) >>= g = p >>= fun a => f a >>= g := by
  funext s
  rcases hp : p s with ⟨r, v⟩
  cases r <;> simp only [bind_apply, hp]

theorem succeed_bind (a : α) (f : α → Phase β) : succeed a >>= f = f a := rfl

variable {schedule : Schedule} {tasks : List (Task Session α)} {g : List α → Phase β}

theorem sideBySide_bind_ok {values : List α} (h : fanOut schedule tasks s = (.ok values, u)) :
    (sideBySide schedule tasks >>= g) s = g values u := bind_of_ok h

theorem sideBySide_bind_error {fault : Fault} (h : fanOut schedule tasks s = (.error fault, u)) :
    (sideBySide schedule tasks >>= g) s = (.error fault, u) := bind_of_error h

end Phase

/-! ## The parts of a run -/

namespace Job

variable {job : Job} {options : Options} {schedules : Schedules} {s : Session}

/-- What comes before the tasks of the first stage: the job is checked, and the shards are
counted. -/
def opening (job : Job) (options : Options) : Phase Nat := do
  Phase.enter .keyValidation
  Phase.ofOutcome job.check
  Phase.enter .typeCoercion
  decideShards options job.datasets

/-- What a run has found out before it splits its datasets. -/
structure Prepared where
  count : Nat
  datasets : List Dataset
  coercions : List Coercion
  merged : Schema

/-- All that comes before the scratch directory. -/
def prepared (job : Job) (options : Options) (schedule : Schedule) : Phase Prepared := do
  let count ← job.opening options
  let (datasets, coercions) ← coerceDatasets schedule job.datasets
  let merged ← Phase.ofOutcome
    ((Schema.merge (datasets.map Dataset.schema)).mapError Fault.schema)
  Phase.enter .sharding
  Phase.succeed ⟨count, datasets, coercions, merged⟩

/-- What a run does in its scratch directory. -/
def inScratch (job : Job) (options : Options) (schedules : Schedules) (p : Prepared)
    (scratch : Scratch) : Phase Report := do
  let parts ← joinDatasets options schedules p.datasets p.count (.scratch scratch)
  let (assembled, descriptor) ← emitOutput p.merged job.output parts
  Phase.succeed ⟨p.count, assembled.rows, descriptor, p.coercions, Metrics.zero.snapshot⟩

theorem stages_eq (job : Job) (options : Options) (schedules : Schedules) :
    job.stages options schedules = job.prepared options schedules.coercion >>= fun p =>
      Phase.withScratch options.scratchParent (job.inScratch options schedules p) := by
  simp only [prepared, opening, Phase.bind_assoc, Phase.succeed_bind]
  rfl

end Job

/-! ## What a run has done when a part of it has succeeded -/

section Parts

variable {job : Job} {options : Options} {schedules : Schedules} {schedule : Schedule}
  {s u : Session}

/-- The report on what was done to datasets. -/
def reportCoercions (coercions : List Coercion) (s : Session) : Session :=
  { s with events := s.events ++ coercions.zipIdx.map fun (c, i) => .datasetCoerced i c.promoted }

theorem coerceDatasets_apply (schedule : Schedule) (datasets : List Dataset) (s : Session) :
    coerceDatasets schedule datasets s =
      match fanOut schedule (coercionTasks datasets) s with
      | (.ok values, v) =>
        (.ok (values.map Prod.fst, values.map Prod.snd), reportCoercions (values.map Prod.snd) v)
      | (.error fault, v) => (.error fault, v) := by
  rcases hr : fanOut schedule (coercionTasks datasets) s with ⟨r, v⟩
  cases r with
  | ok values => exact Phase.sideBySide_bind_ok hr
  | error fault => exact Phase.sideBySide_bind_error hr

theorem prepared_eq_ok {p : Job.Prepared} (h : job.prepared options schedule s = (.ok p, u)) :
    ∃ o values v, job.opening options s = (.ok p.count, o) ∧
      fanOut schedule (coercionTasks job.datasets) o = (.ok values, v) ∧
      p.datasets = values.map Prod.fst ∧ p.coercions = values.map Prod.snd ∧
      Schema.merge (p.datasets.map Dataset.schema) = .ok p.merged ∧
      u = (reportCoercions p.coercions v).enter .sharding := by
  obtain ⟨count, o, hopening, h⟩ := Phase.bind_eq_ok.1 h
  obtain ⟨⟨datasets, coercions⟩, v, hcoerce, h⟩ := Phase.bind_eq_ok.1 h
  obtain ⟨merged, v', hmerge, h⟩ := Phase.bind_eq_ok.1 h
  obtain ⟨⟨⟩, v'', henter, h⟩ := Phase.bind_eq_ok.1 h
  cases h
  cases henter
  rw [coerceDatasets_apply] at hcoerce
  split at hcoerce
  · rename_i values w hvalues
    cases hcoerce
    have hmerged := congrArg Prod.fst hmerge
    have hsession := congrArg Prod.snd hmerge
    cases hsession
    exact ⟨o, values, w, hopening, hvalues, rfl, rfl, mapError_eq_ok.1 hmerged, rfl⟩
  · cases hcoerce

/-- The session in which shards are joined. -/
def Session.admitting (s : Session) (options : Options) : Session :=
  { s.enter .shardJoin with permits := max options.maxInFlight 1 }

theorem joinDatasets_apply (options : Options) (schedules : Schedules) (datasets : List Dataset)
    (count : Nat) (folder : Folder) (s : Session) :
    joinDatasets options schedules datasets count folder s =
      match fanOut schedules.sharding (shardingTasks count folder datasets) s with
      | (.ok sets, v) => fanOut schedules.joining
          (joiningTasks datasets sets folder schedules.waits count) (v.admitting options)
      | (.error fault, v) => (.error fault, v) := by
  rcases hr : fanOut schedules.sharding (shardingTasks count folder datasets) s with ⟨r, v⟩
  cases r with
  | ok sets => exact Phase.sideBySide_bind_ok hr
  | error fault => exact Phase.sideBySide_bind_error hr

end Parts

/-! ## Scratch directories -/

theorem createScratch_eq_ok {t files : FileTree} {dir : String} {scratch : Scratch} :
    t.createScratch dir = .ok (files, scratch) ↔
      ∃ k, t.Opens dir scratchNameSize k ∧
        scratch = ⟨k ++ [.fresh t.nextSerial], t.pathSize dir scratchNameSize⟩ ∧
        files = t.put scratch.location .directory := by
  unfold createScratch
  rw [bind_eq_ok]
  constructor
  · rintro ⟨l, hl, h⟩
    obtain ⟨k, hk, rfl⟩ := freshPlace_eq_ok.1 hl
    cases h
    exact ⟨k, hk, rfl, rfl⟩
  · rintro ⟨k, hk, rfl, rfl⟩
    exact ⟨_, freshPlace_eq_ok.2 ⟨k, hk, rfl⟩, rfl⟩

theorem scratch_not_spelled {t files : FileTree} {dir : String} {scratch : Scratch}
    (h : t.createScratch dir = .ok (files, scratch)) : ¬ scratch.location.Spelled := by
  obtain ⟨k, -, rfl, -⟩ := createScratch_eq_ok.1 h
  exact fun hs => hs t.nextSerial (by simp)

/-- The location is not in the directory. -/
def Scratch.Outside (dir : Scratch) (l : Location) : Prop := ¬ dir.location <+: l

theorem outside_of_spelled {dir : Scratch} (hdir : ¬ dir.location.Spelled) (l : Location)
    (h : l.Spelled) : dir.Outside l :=
  fun hbelow => hdir fun serial hs => h serial (hbelow.subset hs)

theorem outside_createScratch {t files : FileTree} {parent : String} {dir : Scratch}
    (h : t.createScratch parent = .ok (files, dir)) : AgreeOn dir.Outside t files := by
  obtain ⟨k, -, -, rfl⟩ := createScratch_eq_ok.1 h
  exact agreeOn_put _ fun hout => hout (List.prefix_refl _)

/-- Nothing stood in the directory before. -/
theorem restores {t files u : FileTree} {parent : String} {dir : Scratch}
    (h : t.createScratch parent = .ok (files, dir)) (hu : AgreeOn dir.Outside t u) :
    Same t (u.removeScratch dir) := by
  obtain ⟨k, -, hdir, -⟩ := createScratch_eq_ok.1 h
  refine ⟨hu.1, fun l _ => ?_⟩
  rw [removeScratch, nodeAt?_eraseBelow]
  split
  · rename_i hbelow
    refine nodeAt?_fresh t ((List.isPrefixOf_iff_prefix.1 hbelow).subset ?_)
    rw [hdir]
    exact List.mem_append_right k (by simp)
  · rename_i hbelow
    exact hu.2 l fun hp => hbelow (List.isPrefixOf_iff_prefix.2 hp)

theorem Scratch.Outside.unowned {dir : Scratch} {l : Location} (h : dir.Outside l) (i : Nat) :
    ¬ ownsShards dir i l := by
  rintro ⟨shard, rfl⟩
  exact h (List.prefix_append _ _)

theorem sharding_keeps {dir : Scratch} (hdir : ¬ dir.location.Spelled) (schedule : Schedule)
    (datasets : List Dataset) (count : Nat) (s : Session) :
    AgreeOn (fun l => ∀ i, ¬ ownsShards dir i l) s.files
      (fanOut schedule (shardingTasks count (.scratch dir) datasets) s).2.files :=
  fanOut_keeps (orderly_sharding hdir count datasets s) (AgreeOn.refl _ _) Nat.one_pos schedule

theorem joinDatasets_keeps {dir : Scratch} (hdir : ¬ dir.location.Spelled) (options : Options)
    (schedules : Schedules) (datasets : List Dataset) (count : Nat) (s : Session) :
    AgreeOn dir.Outside s.files
      (joinDatasets options schedules datasets count (.scratch dir) s).2.files := by
  have hsplit := (sharding_keeps hdir schedules.sharding datasets count s).mono
    fun _ hl => Scratch.Outside.unowned hl
  rw [joinDatasets_apply]
  rcases hx : fanOut schedules.sharding (shardingTasks count (.scratch dir) datasets) s with ⟨r, v⟩
  rw [hx] at hsplit
  cases r with
  | error fault => exact hsplit
  | ok sets =>
    obtain ⟨hlength, hsets⟩ := sharding_values hdir hx
    have hpermit : 0 < max options.maxInFlight 1 := by omega
    have hjoin := fanOut_keeps (orderly_joining datasets schedules.waits hdir
      (sets_fit hlength hsets) (o := v.admitting options) hpermit) (AgreeOn.refl _ _) hpermit
      schedules.joining
    refine hsplit.trans (hjoin.mono fun l hl i hown => hl ?_)
    rcases hown with ⟨j, rfl⟩ | rfl
    · exact List.prefix_append _ _
    · exact List.prefix_append _ _

/-! ## Stages -/

namespace Job

variable {job : Job} {options : Options} {schedules : Schedules} {s : Session}

/-- A run of a job in a session comes to a stage with tasks; these begin in the second session. -/
inductive Begins (job : Job) (options : Options) (schedules : Schedules) (s : Session) :
    Stage → (α : Type) → List (Task Session α) → Session → Prop
  | coercion {count : Nat} {u : Session} (h : job.opening options (s.begin job) = (.ok count, u)) :
    Begins job options schedules s .typeCoercion _ (coercionTasks job.datasets) u
  | sharding {p : Prepared} {u : Session} {files : FileTree} {scratch : Scratch}
    (h : job.prepared options schedules.coercion (s.begin job) = (.ok p, u))
    (hscratch : u.files.createScratch options.scratchParent = .ok (files, scratch)) :
    Begins job options schedules s .sharding _
      (shardingTasks p.count (.scratch scratch) p.datasets) (u.withFiles files)
  | joining {p : Prepared} {u v : Session} {files : FileTree} {scratch : Scratch}
    {sets : List ShardSet}
    (h : job.prepared options schedules.coercion (s.begin job) = (.ok p, u))
    (hscratch : u.files.createScratch options.scratchParent = .ok (files, scratch))
    (hsets : fanOut schedules.sharding (shardingTasks p.count (.scratch scratch) p.datasets)
      (u.withFiles files) = (.ok sets, v)) :
    Begins job options schedules s .shardJoin _
      (joiningTasks p.datasets sets (.scratch scratch) schedules.waits p.count)
      (v.admitting options)

/-- Whatever stage a run has come to, its tasks own different files, and none of them waits in
vain. -/
theorem Begins.orderly {stage : Stage} {α : Type} {tasks : List (Task Session α)} {u : Session}
    (h : job.Begins options schedules s stage α tasks u) :
    ∃ owns free post, Orderly owns free tasks u post ∧ 0 < free u := by
  cases h with
  | coercion h => exact ⟨_, _, _, orderly_coercion _ _, Nat.one_pos⟩
  | sharding h hscratch =>
    exact ⟨_, _, _, orderly_sharding (scratch_not_spelled hscratch) _ _ _, Nat.one_pos⟩
  | joining h hscratch hsets =>
    have hdir := scratch_not_spelled hscratch
    obtain ⟨hlength, hsplit⟩ := sharding_values hdir hsets
    have hpermit : 0 < max options.maxInFlight 1 := by omega
    exact ⟨_, _, _, orderly_joining _ _ hdir (sets_fit hlength hsplit) hpermit, hpermit⟩

end Job

/-! ## Files before the scratch directory -/

/-- A part of a run that changes no file. -/
def Phase.Reads {α : Type} (p : Phase α) : Prop := ∀ s, Same s.files (p s).2.files

theorem Phase.Reads.bind {α β : Type} {p : Phase α} {f : α → Phase β} (h : p.Reads)
    (hrest : ∀ a, (f a).Reads) : (p >>= f).Reads := by
  intro s
  have hp := h s
  rcases Phase.bind_cases p f s with ⟨a, v, hv, hbind⟩ | ⟨fault, v, hv, hbind⟩
  · rw [hv] at hp
    rw [hbind]
    exact hp.trans (hrest a v)
  · rw [hv] at hp
    rw [hbind]
    exact hp

theorem reads_opening (job : Job) (options : Options) : (job.opening options).Reads := by
  have hstay : ∀ {α : Type} {p : Phase α}, (∀ s, (p s).2.files = s.files) → p.Reads :=
    fun h s => by rw [h s]; exact AgreeOn.refl _ _
  unfold Job.opening decideShards
  refine Phase.Reads.bind (hstay fun _ => rfl) fun _ => ?_
  refine Phase.Reads.bind (hstay fun _ => rfl) fun _ => ?_
  refine Phase.Reads.bind (hstay fun _ => rfl) fun _ => ?_
  refine Phase.Reads.bind (hstay fun _ => rfl) fun files => ?_
  refine Phase.Reads.bind (hstay fun _ => rfl) fun largest => ?_
  exact Phase.Reads.bind (hstay fun _ => rfl) fun _ => hstay fun _ => rfl

theorem reads_coerceDatasets (schedule : Schedule) (datasets : List Dataset) :
    (coerceDatasets schedule datasets).Reads := by
  intro s
  have hkeep := (fanOut_keeps (orderly_coercion datasets s) (AgreeOn.refl _ _) Nat.one_pos
    schedule).mono fun l (_ : True) _ h => h
  rw [coerceDatasets_apply]
  rcases hx : fanOut schedule (coercionTasks datasets) s with ⟨r, v⟩
  rw [hx] at hkeep
  cases r <;> exact hkeep

theorem reads_prepared (job : Job) (options : Options) (schedule : Schedule) :
    (job.prepared options schedule).Reads := by
  refine Phase.Reads.bind (reads_opening job options) fun count => ?_
  refine Phase.Reads.bind (reads_coerceDatasets schedule job.datasets) fun x => ?_
  refine Phase.Reads.bind (fun _ => AgreeOn.refl _ _) fun merged => ?_
  exact Phase.Reads.bind (fun _ => AgreeOn.refl _ _) fun _ _ => AgreeOn.refl _ _

/-! ## From the stages to the run -/

theorem run_eq (job : Job) (options : Options) (schedules : Schedules) (elapsed : Duration)
    (s : Session) : job.run options schedules elapsed s =
      conclude elapsed (job.stages options schedules (s.begin job)) := rfl

/-- The end of a run changes the counters and the events only. -/
theorem conclude_files (elapsed : Duration) (x : Outcome Report × Session) :
    (conclude elapsed x).2.files = x.2.files := by
  obtain ⟨r, s⟩ := x
  cases r <;> rfl

theorem conclude_error (elapsed : Duration) {x : Outcome Report × Session} {fault : Fault} :
    (conclude elapsed x).1 = .error fault ↔ x.1 = .error fault := by
  obtain ⟨r, s⟩ := x
  cases r <;> simp [conclude]

theorem conclude_ok {elapsed : Duration} {x : Outcome Report × Session} {report : Report}
    (h : (conclude elapsed x).1 = .ok report) :
    ∃ metrics, x.1 = .ok { report with metrics := metrics } := by
  obtain ⟨r, s⟩ := x
  cases r with
  | error fault => cases h
  | ok r =>
    cases h
    exact ⟨r.metrics, rfl⟩

/-! ## Runs whose tasks succeed -/

/-- The datasets that a run splits are those of the job, prepared. -/
theorem forall₂_prepared {job : Job} {options : Options} {schedule : Schedule} {s ready : Session}
    {p : Job.Prepared} (h : job.prepared options schedule (s.begin job) = (.ok p, ready)) :
    List.Forall₂ (fun d d' => ∃ c delimiter sheet types places,
      d.Prepared s.files d' c delimiter sheet types places) job.datasets p.datasets := by
  obtain ⟨o, values, v', hopening, hvalues, hdatasets, -⟩ := prepared_eq_ok h
  have hfiles := reads_opening job options (s.begin job)
  rw [hopening] at hfiles
  rw [hdatasets, List.forall₂_map_right_iff]
  refine (coercion_values hvalues).imp fun d value hd => ?_
  obtain ⟨delimiter, sheet, types, places, hd⟩ := hd.prepared
  exact ⟨value.2, delimiter, sheet, types, places, hd.congr hfiles.symm⟩

/-- What the tasks of a run have come to, once all of them have succeeded. -/
structure Job.Worked (job : Job) (options : Options) (schedules : Schedules) (s : Session) where
  prepared : Job.Prepared
  /-- The session before the scratch directory is made. -/
  ready : Session
  dir : Scratch
  /-- The files among which datasets are split. -/
  files : FileTree
  sets : List ShardSet
  /-- The session in which all datasets are split. -/
  split : Session
  parts : List Part
  joined : Session
  prepares : job.prepared options schedules.coercion (s.begin job) = (.ok prepared, ready)
  creates : ready.files.createScratch options.scratchParent = .ok (files, dir)
  splits : fanOut schedules.sharding
    (shardingTasks prepared.count (.scratch dir) prepared.datasets) (ready.withFiles files) =
      (.ok sets, split)
  joins : fanOut schedules.joining
    (joiningTasks prepared.datasets sets (.scratch dir) schedules.waits prepared.count)
      (split.admitting options) = (.ok parts, joined)

namespace Job.Worked

variable {job : Job} {options : Options} {schedules : Schedules} {s : Session}

/-- The tables are the joins of all shards. -/
def Tables (w : job.Worked options schedules s) (tables : List Table) : Prop :=
  tables.length = w.prepared.count ∧ ∀ (shard : Nat) (table : Table), tables[shard]? = some table →
    JoinsTo w.split.files (shardInputs w.prepared.datasets w.sets shard) table

theorem not_spelled (w : job.Worked options schedules s) : ¬ w.dir.location.Spelled :=
  scratch_not_spelled w.creates

theorem sets_length (w : job.Worked options schedules s) :
    w.sets.length = w.prepared.datasets.length := (sharding_values w.not_spelled w.splits).1

theorem datasets_prepared (w : job.Worked options schedules s) :
    List.Forall₂ (fun d d' => ∃ c delimiter sheet types places,
      d.Prepared s.files d' c delimiter sheet types places) job.datasets w.prepared.datasets :=
  forall₂_prepared w.prepares

theorem joinDatasets_eq (w : job.Worked options schedules s) :
    joinDatasets options schedules w.prepared.datasets w.prepared.count (.scratch w.dir)
      (w.ready.withFiles w.files) = (.ok w.parts, w.joined) := by
  rw [joinDatasets_apply, w.splits]
  exact w.joins

theorem same_ready (w : job.Worked options schedules s) : Same s.files w.ready.files := by
  have hv := reads_prepared job options schedules.coercion (s.begin job)
  rw [w.prepares] at hv
  exact hv

theorem outside (w : job.Worked options schedules s) :
    AgreeOn w.dir.Outside w.ready.files w.joined.files := by
  have hkeep := joinDatasets_keeps w.not_spelled options schedules w.prepared.datasets
    w.prepared.count (w.ready.withFiles w.files)
  rw [w.joinDatasets_eq] at hkeep
  exact (outside_createScratch w.creates).trans hkeep

end Job.Worked

end Equijoin
