import Equijoin.Proofs.Runs.Remains
import Equijoin.Proofs.Stages.Ledgers

/-! # The course of a run

What a run has reported and counted when it has come to a stage, and when it has stopped there.

* `Phase.Meets`: what a part of a run comes to, put together from its parts.
* `Chapter`, `Session.Tells`: the reports of a session, stage by stage.
* `prepared_course`: a run up to its scratch directory.
* `Job.Begins.counters`: what is counted when the tasks of a stage begin.
* `emitOutput_course`: the stages after that.
-/

set_option autoImplicit false

namespace Equijoin

variable {job : Job} {options : Options} {schedules : Schedules} {s u : Session}

/-! ## Parts of a run -/

namespace Phase

variable {α β : Type}

/-- The part comes to a result and a session with the property. -/
def Meets (p : Phase α) (s : Session) (post : Outcome α → Session → Prop) : Prop :=
  post (p s).1 (p s).2

theorem Meets.bind {p : Phase α} {f : α → Phase β} {post : Outcome β → Session → Prop}
    (h : p.Meets s fun r u =>
      match r with
      | .ok a => (f a).Meets u post
      | .error fault => post (.error fault) u) :
    (p >>= f).Meets s post := by
  unfold Meets at h ⊢
  rw [bind_apply]
  rcases hp : p s with ⟨r, u⟩
  rw [hp] at h
  cases r <;> exact h

theorem Meets.mono {p : Phase α} {post post' : Outcome α → Session → Prop} (h : p.Meets s post)
    (hpost : ∀ r u, post r u → post' r u) : p.Meets s post' :=
  hpost _ _ h

theorem meets_of_eq {p : Phase α} {r : Outcome α} {post : Outcome α → Session → Prop}
    (hp : p s = (r, u)) (h : post r u) : p.Meets s post := by
  unfold Meets
  rw [hp]
  exact h

theorem meets_change {f : Session → Session} {post : Outcome Unit → Session → Prop}
    (h : post (.ok ()) (f s)) : (change f).Meets s post := h

theorem meets_outcome {r : Outcome α} {post : Outcome α → Session → Prop} (h : post r s) :
    (ofOutcome r).Meets s post := h

theorem meets_files {post : Outcome FileTree → Session → Prop} (h : post (.ok s.files) s) :
    files.Meets s post := h

theorem meets_onFiles {f : FileTree → Outcome α × FileTree} {post : Outcome α → Session → Prop}
    (h : post (f s.files).1 (s.withFiles (f s.files).2)) : (onFiles f).Meets s post := h

theorem meets_succeed {a : α} {post : Outcome α → Session → Prop} (h : post (.ok a) s) :
    (succeed a).Meets s post := h

end Phase

/-! ## Chapters -/

/-- What a run reports while it is in a stage. -/
structure Chapter where
  stage : Stage
  events : List Event

/-- The reports of a chapter, which begin with the stage. -/
def Chapter.text (c : Chapter) : List Event := .stageStarted c.stage :: c.events

/-- Since the first session the chapters have been reported, and the last of them is where the run
is now. -/
structure Session.Tells (origin : Session) (book : List Chapter) (s : Session) : Prop where
  events : s.events = origin.events ++ book.flatMap Chapter.text
  stage : s.stage = ((book.getLast?).map Chapter.stage).getD origin.stage

namespace Session.Tells

variable {origin : Session} {book : List Chapter} {c : Chapter}

theorem refl (s : Session) : s.Tells [] s := ⟨by simp, rfl⟩

theorem enter (h : origin.Tells book s) (stage : Stage) :
    origin.Tells (book ++ [⟨stage, []⟩]) (s.enter stage) := by
  constructor
  · simp [Session.enter, Session.emit, h.events, Chapter.text]
  · simp [Session.enter, Session.emit]

theorem append (book : List Chapter) {more : List Event} (h : origin.Tells (book ++ [c]) s)
    (hevents : u.events = s.events ++ more) (hstage : u.stage = s.stage) :
    origin.Tells (book ++ [⟨c.stage, c.events ++ more⟩]) u := by
  constructor
  · simp [hevents, h.events, Chapter.text]
  · simp [hstage, h.stage]

theorem withFiles (h : origin.Tells book s) (files : FileTree) :
    origin.Tells book (s.withFiles files) := ⟨h.events, h.stage⟩

end Session.Tells

/-! ## Up to the scratch directory -/

theorem opening_course (job : Job) (options : Options) (s : Session) :
    (job.opening options).Meets s fun r u => u.metrics = s.metrics ∧
      match r with
      | .ok count => ∃ largest,
        s.Tells [⟨.keyValidation, []⟩, ⟨.typeCoercion, [.shardCountDecided count largest]⟩] u
      | .error _ =>
        s.Tells [⟨.keyValidation, []⟩] u ∨ s.Tells [⟨.keyValidation, []⟩, ⟨.typeCoercion, []⟩] u := by
  have hfirst := (Session.Tells.refl s).enter .keyValidation
  have hsecond := hfirst.enter .typeCoercion
  unfold Job.opening decideShards
  apply Phase.Meets.bind
  apply Phase.meets_change
  apply Phase.Meets.bind
  apply Phase.meets_outcome
  cases job.check with
  | error fault => exact ⟨rfl, .inl hfirst⟩
  | ok =>
    apply Phase.Meets.bind
    apply Phase.meets_change
    apply Phase.Meets.bind
    apply Phase.meets_files
    apply Phase.Meets.bind
    apply Phase.meets_outcome
    cases largestInput _ _ with
    | error fault => exact ⟨rfl, .inr hsecond⟩
    | ok largest =>
      apply Phase.Meets.bind
      apply Phase.meets_change
      apply Phase.meets_succeed
      exact ⟨rfl, largest, hsecond.append [⟨.keyValidation, []⟩] rfl rfl⟩

theorem coercion_session (schedule : Schedule) (datasets : List Dataset) (s : Session) :
    (fanOut schedule (coercionTasks datasets) s).2 =
      s.withFiles (fanOut schedule (coercionTasks datasets) s).2.files := by
  apply fanOut_stays (R := fun s u : Session => u = s.withFiles u.files)
  · exact fun s => rfl
  · intro s u v hu hv
    rw [hv, hu]
    rfl
  · intro task htask
    obtain ⟨d, -, rfl⟩ := List.mem_map.1 htask
    exact Task.Stays.within (R := fun _ _ => True) (fun _ _ => rfl) (fun _ _ _ => trivial)
      (fun _ _ _ => rfl) (Task.stays_any _ _) fun _ _ => trivial

theorem coerceDatasets_course (schedule : Schedule) (datasets : List Dataset) (s : Session) :
    (coerceDatasets schedule datasets).Meets s fun r u => ∃ files,
      match r with
      | .ok x => x.2.length = datasets.length ∧ u = reportCoercions x.2 (s.withFiles files)
      | .error _ => u = s.withFiles files := by
  have hsession := coercion_session schedule datasets s
  have happly := coerceDatasets_apply schedule datasets s
  rcases hx : fanOut schedule (coercionTasks datasets) s with ⟨r, v⟩
  rw [hx] at hsession happly
  have hv : v = s.withFiles v.files := hsession
  cases r with
  | error fault =>
    apply Phase.meets_of_eq happly
    exact ⟨v.files, hv⟩
  | ok values =>
    apply Phase.meets_of_eq happly
    refine ⟨v.files, ?_, by rw [← hv]⟩
    rw [List.length_map, (coercion_values hx).length_eq]

/-- The reports on what was done to datasets, in their order. -/
def coercionReports (coercions : List Coercion) : List Event :=
  coercions.zipIdx.map fun (c, i) => .datasetCoerced i c.promoted

/-- The dataset that is reported as coerced. -/
def Event.coerced? : Event → Option Nat
  | datasetCoerced dataset _ => some dataset
  | _ => none

theorem coerced_coercionReports (coercions : List Coercion) :
    (coercionReports coercions).map Event.coerced? =
      (List.range coercions.length).map some := by
  rw [coercionReports, List.map_map, List.range_eq_range', ← List.zipIdx_map_snd 0 coercions,
    List.map_map]
  rfl

/-- What may be reported before datasets are split: the shards are counted, and then all datasets
are reported as coerced in their order, or none. -/
def OpeningReports (datasets count : Nat) (events : List Event) : Prop :=
  events = [] ∨ ∃ largest coerced, events = .shardCountDecided count largest :: coerced ∧
    (coerced = [] ∨ coerced.map Event.coerced? = (List.range datasets).map some)

theorem OpeningReports.subject {datasets count : Nat} {events : List Event}
    (h : OpeningReports datasets count events) :
    ∀ e ∈ events, (∃ largest, e = .shardCountDecided count largest) ∨ ∃ i, e.coerced? = some i := by
  obtain rfl | ⟨largest, coerced, rfl, hcoerced⟩ := h
  · simp
  intro e he
  obtain rfl | he := List.mem_cons.1 he
  · exact .inl ⟨largest, rfl⟩
  obtain rfl | hcoerced := hcoerced
  · simp at he
  have hmem : e.coerced? ∈ (List.range datasets).map some := by
    rw [← hcoerced]
    exact List.mem_map_of_mem he
  obtain ⟨i, -, hi⟩ := List.mem_map.1 hmem
  exact .inr ⟨i, hi.symm⟩

theorem prepared_course (job : Job) (options : Options) (schedule : Schedule) (s : Session) :
    (job.prepared options schedule).Meets s fun r u => u.metrics = s.metrics ∧
      match r with
      | .ok p => p.coercions.length = job.datasets.length ∧ ∃ largest,
        s.Tells [⟨.keyValidation, []⟩,
          ⟨.typeCoercion, .shardCountDecided p.count largest :: coercionReports p.coercions⟩,
          ⟨.sharding, []⟩] u
      | .error _ => s.Tells [⟨.keyValidation, []⟩] u ∨
        ∃ count events, OpeningReports job.datasets.length count events ∧
          s.Tells [⟨.keyValidation, []⟩, ⟨.typeCoercion, events⟩] u := by
  unfold Job.prepared
  apply Phase.Meets.bind
  apply (opening_course job options s).mono
  rintro (fault | count) o ⟨hmetrics, htells⟩
  · refine ⟨hmetrics, ?_⟩
    obtain h | h := htells
    · exact .inl h
    · exact .inr ⟨0, [], .inl rfl, h⟩
  obtain ⟨largest, htells⟩ := htells
  apply Phase.Meets.bind
  apply (coerceDatasets_course schedule job.datasets o).mono
  rintro (fault | ⟨datasets, coercions⟩) v ⟨files, hv⟩
  · rw [hv]
    exact ⟨hmetrics, .inr ⟨count, _, .inr ⟨largest, [], rfl, .inl rfl⟩, htells.withFiles files⟩⟩
  obtain ⟨hlength, rfl⟩ := hv
  have hreports : s.Tells [⟨.keyValidation, []⟩,
      ⟨.typeCoercion, .shardCountDecided count largest :: coercionReports coercions⟩]
      (reportCoercions coercions (o.withFiles files)) :=
    htells.append [⟨.keyValidation, []⟩] rfl rfl
  apply Phase.Meets.bind
  apply Phase.meets_outcome
  cases (Schema.merge (datasets.map Dataset.schema)).mapError Fault.schema with
  | error fault =>
    have hcoerced := coerced_coercionReports coercions
    rw [hlength] at hcoerced
    exact ⟨hmetrics, .inr ⟨count, _, .inr ⟨largest, _, rfl, .inr hcoerced⟩, hreports⟩⟩
  | ok merged =>
    apply Phase.Meets.bind
    apply Phase.meets_change
    apply Phase.meets_succeed
    exact ⟨hmetrics, hlength, largest, hreports.enter .sharding⟩

/-! ## Where tasks begin -/

theorem prepared_metrics {p : Job.Prepared} {schedule : Schedule}
    (h : job.prepared options schedule s = (.ok p, u)) : u.metrics = s.metrics := by
  have hcourse := prepared_course job options schedule s
  unfold Phase.Meets at hcourse
  rw [h] at hcourse
  exact hcourse.1

theorem splitting_metrics {count : Nat} {folder : Folder}
    {datasets : List Dataset} {schedule : Schedule} {r : Outcome (List ShardSet)}
    (hzero : s.metrics.rowsSharded = 0)
    (h : fanOut schedule (shardingTasks count folder datasets) s = (r, u)) :
    u.metrics = { s.metrics with rowsSharded := u.metrics.rowsSharded } := by
  obtain ⟨progress, -, hledger, -⟩ := splitting_ledger count folder datasets hzero schedule
  obtain rfl : (Pool.finished _ _ _).state = u := congrArg Prod.snd h
  exact hledger.metrics

/-- A run has counted nothing else when its datasets are split. -/
theorem sharding_metrics {p : Job.Prepared} {ready split : Session} {files : FileTree}
    {folder : Folder} {r : Outcome (List ShardSet)}
    (h : job.prepared options schedules.coercion (s.begin job) = (.ok p, ready))
    (hsplit : fanOut schedules.sharding (shardingTasks p.count folder p.datasets)
      (ready.withFiles files) = (r, split)) :
    split.metrics = { s.metrics.beginRun with rowsSharded := split.metrics.rowsSharded } := by
  have hready : ready.metrics = s.metrics.beginRun := prepared_metrics h
  have hmetrics := splitting_metrics (s := ready.withFiles files)
    (congrArg Metrics.rowsSharded hready) hsplit
  rw [hmetrics]
  simp [Session.withFiles, hready]

/-- When the shards of a run are joined, nothing has been counted for shards yet. -/
theorem Job.Begins.counters {α : Type} {tasks : List (Task Session α)}
    (h : job.Begins options schedules s .shardJoin α tasks u) :
    u.metrics.Unjoined ∧ u.metrics.runId = s.metrics.runId + 1 ∧
      u.permits = max options.maxInFlight 1 := by
  cases h with
  | joining h hscratch hsets =>
    have hv := sharding_metrics h hsets
    refine ⟨?_, congrArg Metrics.runId hv, rfl⟩
    constructor
    · exact congrArg Metrics.shardsStarted hv
    · exact congrArg Metrics.shardsFinished hv
    · exact congrArg Metrics.activeShards hv
    · exact congrArg Metrics.rowsJoined hv
    · exact congrArg Metrics.throttleWait hv
    · exact congrArg Metrics.maxActiveShards hv

/-! ## After the shards are joined -/

theorem totalRows_eq_sum (parts : List Part) : totalRows parts = (parts.map Part.rows).sum := by
  induction parts with
  | nil => rfl
  | cons part rest ih => rw [totalRows, ih, List.map_cons, List.sum_cons]

theorem rows_of_assembleParts {parts : List Part} {path : String} {t v : FileTree} {a : Assembled}
    (h : assembleParts parts path t = (.ok a, v)) : a.rows = (parts.map Part.rows).sum := by
  have hsorted := (List.mergeSort_perm parts fun p q => p.index.ble q.index).map Part.rows
  unfold assembleParts assemble at h
  revert h hsorted
  cases parts.mergeSort fun p q => p.index.ble q.index with
  | nil =>
    intro h
    cases h
  | cons first rest =>
    intro h hsorted
    split at h
    · rename_i assembled files hassemble
      cases h
      obtain ⟨staged, -, hassemble⟩ := bind_eq_ok.1 hassemble
      obtain ⟨text, -, hassemble⟩ := bind_eq_ok.1 hassemble
      cases hassemble
      rw [totalRows_eq_sum, hsorted.sum_eq]
    · cases h

theorem emitOutput_course {origin : Session} {book : List Chapter} (h : origin.Tells book s)
    (merged : Schema) (output : Output) (parts : List Part) :
    (emitOutput merged output parts).Meets s fun r u => u.metrics = s.metrics ∧
      match r with
      | .ok (a, _) => a.rows = (parts.map Part.rows).sum ∧
        origin.Tells (book ++ [⟨.assembly, [.assembled a.rows output.dataPath]⟩, ⟨.schemaEmit, []⟩,
          ⟨.done, []⟩]) u
      | .error _ => origin.Tells (book ++ [⟨.assembly, []⟩]) u ∨ ∃ rows,
        origin.Tells (book ++ [⟨.assembly, [.assembled rows output.dataPath]⟩,
          ⟨.schemaEmit, []⟩]) u := by
  unfold emitOutput
  apply Phase.Meets.bind
  apply Phase.meets_change
  apply Phase.Meets.bind
  apply Phase.meets_onFiles
  rcases ha : assembleParts parts output.dataPath (s.enter .assembly).files with ⟨r, files⟩
  have hassembly : origin.Tells (book ++ [⟨.assembly, []⟩])
      ((s.enter .assembly).withFiles files) := (h.enter .assembly).withFiles files
  cases r with
  | error fault => exact ⟨rfl, .inl hassembly⟩
  | ok a =>
    have hreported : origin.Tells (book ++ [⟨.assembly, [.assembled a.rows output.dataPath]⟩])
        (((s.enter .assembly).withFiles files).emit (.assembled a.rows output.dataPath)) :=
      hassembly.append book rfl rfl
    have hschema := hreported.enter .schemaEmit
    rw [List.append_assoc] at hschema
    apply Phase.Meets.bind
    apply Phase.meets_change
    apply Phase.Meets.bind
    apply Phase.meets_change
    apply Phase.Meets.bind
    apply Phase.meets_onFiles
    cases (publishOutput merged output a _).1 with
    | error fault => exact ⟨rfl, .inr ⟨a.rows, hschema.withFiles _⟩⟩
    | ok d =>
      apply Phase.Meets.bind
      apply Phase.meets_change
      apply Phase.meets_succeed
      have hdone := fun published => (hschema.withFiles published).enter .done
      simp only [List.append_assoc] at hdone
      exact ⟨rfl, rows_of_assembleParts ha, hdone _⟩

end Equijoin
