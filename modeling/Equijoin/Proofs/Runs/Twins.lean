import Equijoin.Proofs.Runs.Anatomy
import Equijoin.Proofs.Tasks.Blindness

/-! # Runs that differ in their number

What an earlier run leaves in a session, besides files, is its number and some permits. No run looks
at the former, and none looks at the latter before it sets them.

* `Session.Twins`: sessions that differ in no more than that.
* `Phase.Blind`: a part of a run does the same in such sessions.
* `run_twins`: a run does the same in a session as in a new one with the same files.
-/

set_option autoImplicit false

namespace Equijoin

variable {strict : Prop} {s u : Session}

/-- The sessions differ in the number of the run at most, and in their permits unless the comparison
is strict. -/
structure Session.Twins (strict : Prop) (s u : Session) : Prop where
  files : s.files = u.files
  stage : s.stage = u.stage
  events : s.events = u.events
  metrics : s.metrics = { u.metrics with runId := s.metrics.runId }
  permits : strict → s.permits = u.permits

namespace Session.Twins

theorem loose (h : s.Twins strict u) : s.Twins False u := ⟨h.files, h.stage, h.events, h.metrics, nofun⟩

theorem withFiles (h : s.Twins strict u) (files : FileTree) :
    (s.withFiles files).Twins strict (u.withFiles files) :=
  ⟨rfl, h.stage, h.events, h.metrics, h.permits⟩

theorem append (h : s.Twins strict u) (more : List Event) :
    Twins strict { s with events := s.events ++ more } { u with events := u.events ++ more } :=
  ⟨h.files, h.stage, congrArg (· ++ more) h.events, h.metrics, h.permits⟩

theorem emit (h : s.Twins strict u) (e : Event) : (s.emit e).Twins strict (u.emit e) := h.append [e]

theorem enter (h : s.Twins strict u) (stage : Stage) :
    (s.enter stage).Twins strict (u.enter stage) :=
  ⟨h.files, rfl, (h.emit (.stageStarted stage)).events, h.metrics, h.permits⟩

/-- What is counted does not depend on the number of the run. -/
theorem count (h : s.Twins strict u) {change : Metrics → Metrics}
    (hchange : ∀ m run, change { m with runId := run } = { change m with runId := run }) :
    Twins strict { s with metrics := change s.metrics } { u with metrics := change u.metrics } := by
  refine ⟨h.files, h.stage, h.events, ?_, h.permits⟩
  have hcounted : change s.metrics = { change u.metrics with runId := s.metrics.runId } := by
    rw [← hchange, ← h.metrics]
  have hrun : (change s.metrics).runId = s.metrics.runId := by rw [hcounted]
  exact hcounted.trans (by rw [hrun])

theorem admit? (h : s.Twins True u) : Option.Rel (Twins True) s.admit? u.admit? := by
  unfold Session.admit?
  rw [h.permits trivial]
  cases u.permits with
  | zero => exact .none
  | succ n => exact .some ⟨h.files, h.stage, h.events, h.metrics, fun _ => rfl⟩

theorem release (h : s.Twins True u) : s.release.Twins True u.release :=
  ⟨h.files, h.stage, h.events, h.metrics, fun _ => congrArg (· + 1) (h.permits trivial)⟩

theorem admitting (h : s.Twins strict u) (options : Options) :
    (s.admitting options).Twins True (u.admitting options) :=
  ⟨h.files, rfl, (h.enter .shardJoin).events, h.metrics, fun _ => rfl⟩

end Session.Twins

/-! ## Tasks -/

section Tasks

variable {datasets : List Dataset} {sets : List ShardSet} {folder : Folder}

theorem blind_onFiles {α : Type} (t : Task FileTree α) : t.onFiles.Blind (Session.Twins strict) :=
  Task.blind_within (fun _ _ h => h.files) (fun _ _ files h => h.withFiles files) t

theorem blind_emit (e : Event) : (Task.emit e).Blind (Session.Twins strict) :=
  Task.blind_act fun _ _ h => h.emit e

theorem blind_count {change : Metrics → Metrics}
    (hchange : ∀ m run, change { m with runId := run } = { change m with runId := run }) :
    (Task.count change).Blind (Session.Twins strict) :=
  Task.blind_act fun _ _ h => h.count hchange

theorem blind_shardTask (count : Nat) (i : Nat) (d : Dataset) :
    (shardTask count folder i d).Blind (Session.Twins strict) := by
  have hreport : ∀ set : ShardSet, ((Task.emit (.datasetSharded i set.rows)).bind
      fun _ => Task.succeed set).Blind (Session.Twins strict) :=
    fun set => (blind_emit _).bind fun _ => Task.blind_done _
  unfold shardTask
  apply Task.Blind.bind (blind_onFiles _)
  intro set
  cases hrows : set.rows with
  | none =>
    have h := hreport set
    rw [hrows] at h
    exact h
  | some rows =>
    have h := hreport set
    rw [hrows] at h
    exact Task.Blind.bind (blind_count fun _ _ => rfl) fun _ => h

theorem blind_noteWait (waited : Duration) : (noteWait waited).Blind (Session.Twins strict) := by
  unfold noteWait
  split
  · exact Task.blind_done _
  · exact Task.Blind.bind (blind_count fun _ _ => rfl) fun _ => blind_emit _

theorem blind_joinAdmitted (waited : Duration) (shard : Nat) :
    (joinAdmitted datasets sets folder waited shard).Blind (Session.Twins strict) := by
  unfold joinAdmitted
  apply (blind_noteWait waited).bind
  intro
  apply Task.blind_check.bind
  intro
  apply Task.Blind.bind (blind_count fun _ _ => rfl)
  intro
  apply (blind_emit _).bind
  intro
  apply (blind_onFiles _).caught.bind
  intro joined
  apply Task.Blind.bind
  · apply Task.blind_act
    intro s u h
    rw [h.files]
    exact h.withFiles _
  intro
  apply ((Task.blind_done joined).bind fun table => blind_onFiles _).caught.bind
  intro part
  apply Task.Blind.bind (blind_count fun _ _ => rfl)
  intro
  apply (Task.blind_done part).bind
  intro p
  exact (blind_emit _).bind fun _ => Task.blind_done _

theorem blind_joinTask (waits : Nat → Duration) (shard : Nat) :
    (joinTask datasets sets folder waits shard).Blind (Session.Twins True) := by
  unfold joinTask
  apply Task.blind_check.bind
  intro
  apply (Task.blind_await fun _ _ h => h.admit?).bind
  intro
  apply (blind_joinAdmitted (waits shard) shard).caught.bind
  intro part
  exact (Task.blind_act fun _ _ h => h.release).bind fun _ => Task.blind_done _

end Tasks

/-! ## Parts of a run -/

namespace Phase

variable {α β : Type}

/-- In sessions that are twins the part does the same. -/
def Blind (p : Phase α) : Prop :=
  ∀ ⦃s u : Session⦄, s.Twins False u → (p s).1 = (p u).1 ∧ (p s).2.Twins False (p u).2

theorem Blind.bind {p : Phase α} {f : α → Phase β} (h : p.Blind) (hf : ∀ a, (f a).Blind) :
    (p >>= f).Blind := by
  intro s u hsu
  have hp := h hsu
  rw [bind_apply, bind_apply]
  revert hp
  rcases p s with ⟨r, v⟩
  rcases p u with ⟨r', v'⟩
  rintro ⟨hr, hv⟩
  obtain rfl : r = r' := hr
  cases r with
  | ok a => exact hf a hv
  | error fault => exact ⟨rfl, hv⟩

theorem blind_succeed (a : α) : (succeed a).Blind := fun _ _ h => ⟨rfl, h⟩

theorem blind_outcome (r : Outcome α) : (ofOutcome r).Blind := fun _ _ h => ⟨rfl, h⟩

theorem blind_files : files.Blind := fun _ _ h => ⟨congrArg Except.ok h.files, h⟩

theorem blind_enter (stage : Stage) : (enter stage).Blind := fun _ _ h => ⟨rfl, h.enter stage⟩

theorem blind_report (events : List Event) :
    (change fun s => { s with events := s.events ++ events }).Blind :=
  fun _ _ h => ⟨rfl, h.append events⟩

theorem blind_onFiles (f : FileTree → Outcome α × FileTree) : (onFiles f).Blind := by
  intro s u h
  unfold onFiles
  rw [h.files]
  exact ⟨rfl, h.withFiles _⟩

theorem blind_sideBySide (schedule : Schedule) {tasks : List (Task Session α)}
    (h : ∀ t ∈ tasks, t.Blind (Session.Twins False)) : (sideBySide schedule tasks).Blind :=
  fun _ _ hsu => fanOut_blind h hsu schedule

theorem blind_withScratch (parent : String) {body : Scratch → Phase α}
    (h : ∀ dir, (body dir).Blind) : (withScratch parent body).Blind := by
  intro s u hsu
  unfold withScratch
  rw [hsu.files]
  cases u.files.createScratch parent with
  | error fault => exact ⟨rfl, hsu⟩
  | ok x =>
    obtain ⟨files, dir⟩ := x
    obtain ⟨hresult, hsession⟩ := h dir (hsu.withFiles files)
    refine ⟨hresult, ?_⟩
    dsimp only
    rw [hsession.files]
    exact hsession.withFiles _

end Phase

theorem blind_joinDatasets (options : Options) (schedules : Schedules) (datasets : List Dataset)
    (count : Nat) (folder : Folder) :
    (joinDatasets options schedules datasets count folder).Blind := by
  intro s u hsu
  have hshard : ∀ t ∈ shardingTasks count folder datasets, t.Blind (Session.Twins False) := by
    intro t ht
    obtain ⟨p, -, rfl⟩ := List.mem_map.1 ht
    exact blind_shardTask count _ _
  have hsplit := fanOut_blind hshard hsu schedules.sharding
  rw [joinDatasets_apply, joinDatasets_apply]
  revert hsplit
  rcases fanOut schedules.sharding (shardingTasks count folder datasets) s with ⟨r, v⟩
  rcases fanOut schedules.sharding (shardingTasks count folder datasets) u with ⟨r', v'⟩
  rintro ⟨hr, hv⟩
  obtain rfl : r = r' := hr
  cases r with
  | error fault => exact ⟨rfl, hv⟩
  | ok sets =>
    have hjoin : ∀ t ∈ joiningTasks datasets sets folder schedules.waits count,
        t.Blind (Session.Twins True) := by
      intro t ht
      obtain ⟨shard, -, rfl⟩ := List.mem_map.1 ht
      exact blind_joinTask _ shard
    obtain ⟨hresult, hjoined⟩ := fanOut_blind hjoin (hv.admitting options) schedules.joining
    exact ⟨hresult, hjoined.loose⟩

theorem blind_emitOutput (merged : Schema) (output : Output) (parts : List Part) :
    (emitOutput merged output parts).Blind := by
  unfold emitOutput
  apply (Phase.blind_enter _).bind
  intro
  apply (Phase.blind_onFiles _).bind
  intro a
  apply Phase.Blind.bind (Phase.blind_report [.assembled a.rows output.dataPath])
  intro
  apply (Phase.blind_enter _).bind
  intro
  apply (Phase.blind_onFiles _).bind
  intro d
  exact (Phase.blind_enter _).bind fun _ => Phase.blind_succeed _

theorem blind_stages (job : Job) (options : Options) (schedules : Schedules) :
    (job.stages options schedules).Blind := by
  have hcoerce : ∀ t ∈ coercionTasks job.datasets, t.Blind (Session.Twins False) := by
    intro t ht
    obtain ⟨d, -, rfl⟩ := List.mem_map.1 ht
    exact blind_onFiles d.prepare
  unfold Job.stages decideShards coerceDatasets
  apply (Phase.blind_enter _).bind
  intro
  apply (Phase.blind_outcome _).bind
  intro
  apply (Phase.blind_enter _).bind
  intro
  apply Phase.Blind.bind
  · apply Phase.blind_files.bind
    intro files
    apply (Phase.blind_outcome _).bind
    intro largest
    exact (Phase.blind_report [_]).bind fun _ => Phase.blind_succeed _
  intro count
  apply Phase.Blind.bind
  · apply Phase.Blind.bind (Phase.blind_sideBySide schedules.coercion hcoerce)
    intro prepared
    exact (Phase.blind_report _).bind fun _ => Phase.blind_succeed _
  rintro ⟨datasets, coercions⟩
  apply (Phase.blind_outcome _).bind
  intro merged
  apply (Phase.blind_enter _).bind
  intro
  apply Phase.blind_withScratch
  intro dir
  apply (blind_joinDatasets _ _ _ _ _).bind
  intro parts
  exact (blind_emitOutput _ _ _).bind fun x => Phase.blind_succeed _

/-! ## Runs -/

/-- A run does the same in a session as in a new one with the same files, but for its number. -/
theorem run_twins (job : Job) (options : Options) (schedules : Schedules) (elapsed : Duration)
    (s : Session) :
    let (result, v) := job.run options schedules elapsed s
    let (result', v') := job.run options schedules elapsed (.ofFiles s.files)
    v.files = v'.files ∧ v.metrics = { v'.metrics with runId := v.metrics.runId } ∧
      result = result'.map fun report => { report with metrics := v.metrics.snapshot } := by
  have hbegin : (s.begin job).Twins False ((Session.ofFiles s.files).begin job) :=
    ⟨rfl, rfl, rfl, rfl, nofun⟩
  obtain ⟨hresult, htwins⟩ := blind_stages job options schedules hbegin
  rw [run_eq, run_eq]
  revert hresult htwins
  rcases job.stages options schedules (s.begin job) with ⟨r, v⟩
  rcases job.stages options schedules ((Session.ofFiles s.files).begin job) with ⟨r', v'⟩
  rintro hresult htwins
  obtain rfl : r = r' := hresult
  have hcount := @Session.Twins.count _ _ _ htwins (fun m => m.endRun elapsed) fun _ _ => rfl
  cases r with
  | ok report => exact ⟨htwins.files, hcount.metrics, rfl⟩
  | error fault => exact ⟨htwins.files, hcount.metrics, rfl⟩

end Equijoin
