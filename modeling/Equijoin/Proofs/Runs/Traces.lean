import Equijoin.Proofs.Runs.Course
import Equijoin.Proofs.Runs.InFlight

/-! # What a run reports

Whatever becomes of a run, its reports come in chapters, one for each stage that it enters, and end
with the one that says how it went.

* `Stage.course`: the stages in their order.
* `Stage.Reports`: what may be reported in a stage.
* `Chronicle`: chapters in the order of the stages.
* `Job.Completes`: the reports of a run that succeeds.
* `splitting_course`, `joining_course`: the chapters of tasks that run side by side.
* `Job.Stops.course`, `Job.Worked.course`: the chapters of a run up to where it stops, or until its
  tasks have succeeded.
* `run_traces`: the reports of every run.
-/

set_option autoImplicit false

namespace Equijoin

variable {job : Job} {options : Options} {schedules : Schedules} {s v origin : Session}
  {book : List Chapter} {waits : Nat → Duration}

/-! ## Chapters and their reports -/

/-- The stages that a run goes through. -/
def Stage.course : List Stage :=
  [.keyValidation, .typeCoercion, .sharding, .shardJoin, .assembly, .schemaEmit, .done]

/-- Each dataset is reported as split at most once, and nothing else is reported. -/
def SplitReports (datasets : Nat) (events : List Event) : Prop :=
  (∀ e ∈ events, ∃ i, i < datasets ∧ e.dataset? = some i) ∧
    ∀ i, eventsOf Event.dataset? i events = [] ∨
      ∃ rows, eventsOf Event.dataset? i events = [.datasetSharded i rows]

/-- Each shard is reported at most once as started, and after that at most once as finished. Before
it starts, it reports what it has waited, if anything. Nothing else is reported. -/
structure JoinReports (waits : Nat → Duration) (count : Nat) (events : List Event) : Prop where
  subject : ∀ e ∈ events, ∃ shard, shard < count ∧
    (e.shard? = some shard ∨ e = .throttled (waits shard))
  own : ∀ shard, ∃ rows,
    eventsOf Event.shard? shard events <+: [.shardStarted shard, .shardFinished shard rows]
  woven : ∃ trace, Woven Event.shard? count trace events ∧ ∀ shard, ∃ rows, trace shard <+:
    waitReport (waits shard) ++ [.shardStarted shard, .shardFinished shard rows]

/-- What may be reported in a stage, by the numbers of datasets and shards and by what shards wait.
-/
def Stage.Reports (datasets count : Nat) (waits : Nat → Duration) (stage : Stage)
    (events : List Event) : Prop :=
  match stage with
  | .typeCoercion => OpeningReports datasets count events
  | .sharding => SplitReports datasets events
  | .shardJoin => JoinReports waits count events
  | .assembly => events = [] ∨ ∃ rows path, events = [.assembled rows path]
  | _ => events = []

/-- The chapters end with a stage, and that is not the last of all. -/
def Broken (book : List Chapter) (stage : Stage) : Prop :=
  book.map Chapter.stage ≠ Stage.course ∧
    (book.getLast?).map Chapter.stage = some stage ∧ stage ≠ .init ∧ stage ≠ .done

/-- The event says where the run is: at its beginning, in a stage or at its end. -/
def Event.isMark : Event → Bool
  | runStarted _ | stageStarted _ | runFinished _ _ | runFailed _ _ _ => true
  | _ => false

/-- Chapters in the order of the stages, each with what may be reported in it. -/
structure Chronicle (datasets count : Nat) (waits : Nat → Duration) (book : List Chapter) :
    Prop where
  ordered : book.map Chapter.stage <+: Stage.course
  reports : ∀ c ∈ book, c.stage.Reports datasets count waits c.events

/-- Every dataset is reported as split and every shard as joined, and the rows of all shards are
those of the output. -/
def Job.Completes (job : Job) (report : Report) (book : List Chapter) : Prop :=
  ∃ (largest : Nat) (splits joins : List Event) (rows : List Nat),
    book = [⟨.keyValidation, []⟩,
      ⟨.typeCoercion, .shardCountDecided report.shardCount largest ::
        coercionReports report.coercions⟩,
      ⟨.sharding, splits⟩, ⟨.shardJoin, joins⟩,
      ⟨.assembly, [.assembled report.outputRows job.output.dataPath]⟩,
      ⟨.schemaEmit, []⟩, ⟨.done, []⟩] ∧
    report.coercions.length = job.datasets.length ∧
    (∀ i, i < job.datasets.length →
      ∃ rows, eventsOf Event.dataset? i splits = [.datasetSharded i rows]) ∧
    rows.length = report.shardCount ∧ rows.sum = report.outputRows ∧
    ∀ shard n, rows[shard]? = some n →
      eventsOf Event.shard? shard joins = [.shardStarted shard, .shardFinished shard n]

theorem Stage.Reports.not_mark {datasets count : Nat} {stage : Stage} {events : List Event}
    (h : stage.Reports datasets count waits events) : ∀ e ∈ events, e.isMark = false := by
  intro e he
  cases stage with
  | typeCoercion =>
    obtain ⟨largest, rfl⟩ | ⟨i, hi⟩ := OpeningReports.subject h e he
    · rfl
    · cases e <;> first | rfl | simp [Event.coerced?] at hi
  | sharding =>
    obtain ⟨i, -, hi⟩ := h.1 e he
    cases e <;> first | rfl | simp [Event.dataset?] at hi
  | shardJoin =>
    obtain ⟨shard, -, hshard | rfl⟩ := h.subject e he
    · cases e <;> first | rfl | simp [Event.shard?] at hshard
    · rfl
  | assembly =>
    obtain rfl | ⟨rows, path, rfl⟩ := h
    · simp at he
    · obtain rfl := List.mem_singleton.1 he
      rfl
  | init | keyValidation | schemaEmit | done =>
    have hnone : events = [] := h
    simp [hnone] at he

theorem Chronicle.not_mark {datasets count : Nat} (h : Chronicle datasets count waits book) :
    ∀ c ∈ book, ∀ e ∈ c.events, e.isMark = false :=
  fun c hc => (h.reports c hc).not_mark

theorem Chronicle.part {datasets count : Nat} {book' : List Chapter}
    (h : Chronicle datasets count waits book) (hpart : book' <+: book) :
    Chronicle datasets count waits book' := by
  constructor
  · exact (hpart.map Chapter.stage).trans h.ordered
  · exact fun c hc => h.reports c (hpart.subset hc)

theorem splitReports_nil (datasets : Nat) : SplitReports datasets [] :=
  ⟨by simp, fun _ => .inl rfl⟩

theorem joinReports_nil (waits : Nat → Duration) (count : Nat) : JoinReports waits count [] where
  subject := by simp
  own _ := ⟨0, by simp [eventsOf]⟩
  woven := ⟨_, .nil, fun _ => ⟨0, List.nil_prefix⟩⟩

theorem chronicle_whole {datasets count : Nat} {opening splits joins assembly : List Event}
    (hopening : OpeningReports datasets count opening) (hsplits : SplitReports datasets splits)
    (hjoins : JoinReports waits count joins)
    (hassembly : Stage.assembly.Reports datasets count waits assembly) :
    Chronicle datasets count waits [⟨.keyValidation, []⟩, ⟨.typeCoercion, opening⟩,
      ⟨.sharding, splits⟩, ⟨.shardJoin, joins⟩, ⟨.assembly, assembly⟩, ⟨.schemaEmit, []⟩,
      ⟨.done, []⟩] := by
  constructor
  · exact List.prefix_refl _
  · simpa using ⟨rfl, hopening, hsplits, hjoins, hassembly, rfl, rfl⟩

/-! ## The chapters of tasks -/

theorem SplitLedger.reported {count : Nat} {progress : Nat → SplitProgress}
    (h : SplitLedger s count progress v) : ∃ events, v.events = s.events ++ events ∧
      SplitReports count events ∧
        ∀ i, eventsOf Event.dataset? i events = (progress i).trace i := by
  obtain ⟨events, hevents, hwoven⟩ := h.reports
  have hown : ∀ i, eventsOf Event.dataset? i events = (progress i).trace i := by
    intro i
    rw [hwoven.own i]
    cases progress i <;> simp [eventsOf, SplitProgress.trace, Event.dataset?]
  refine ⟨events, hevents, ⟨?_, ?_⟩, hown⟩
  · intro e he
    obtain ⟨i, hi, hmem⟩ := hwoven.mem he
    refine ⟨i, hi, ?_⟩
    cases hprogress : progress i <;> simp [hprogress, SplitProgress.trace] at hmem
    rw [hmem]
    rfl
  · intro i
    rw [hown i]
    cases progress i with
    | reported set => exact .inr ⟨set.rows, rfl⟩
    | _ => exact .inl rfl

theorem eventsOf_joined (wait : Duration) (shard rows : Nat) :
    eventsOf Event.shard? shard
      (waitReport wait ++ [.shardStarted shard, .shardFinished shard rows]) =
        [.shardStarted shard, .shardFinished shard rows] := by
  rw [eventsOf_append]
  have hnone : eventsOf Event.shard? shard (waitReport wait) = [] := by
    rw [eventsOf, List.filter_eq_nil_iff]
    intro e he
    rw [shard?_waitReport he]
    simp [Event.shard?]
  rw [hnone]
  simp [eventsOf, Event.shard?]

/-- A shard reports what it has waited, that it starts and that it has finished, up to where it has
come. -/
theorem JoinProgress.Counted.trace {waited : Duration} {a : JoinProgress} (h : a.Counted waited)
    (shard : Nat) : ∃ rows, a.trace shard <+:
      waitReport waited ++ [.shardStarted shard, .shardFinished shard rows] := by
  obtain ⟨phase, wait⟩ := a
  have hmade : ∀ rows, waitReport wait ++ [.shardStarted shard] <+:
      waitReport wait ++ [.shardStarted shard, .shardFinished shard rows] := by
    intro rows
    rw [List.prefix_append_right_inj]
    exact ⟨_, rfl⟩
  obtain hwait | ⟨hwait, hstarts⟩ := h
  · obtain rfl : wait = waited := hwait
    cases phase with
    | noted => exact ⟨0, List.nil_prefix⟩
    | waiting | admitted | counted => exact ⟨0, List.prefix_append _ _⟩
    | started | stopped | failed => exact ⟨0, hmade 0⟩
    | reported part | joined part => exact ⟨part.rows, List.prefix_refl _⟩
  · -- nothing has been reported before the wait is counted
    obtain rfl : wait = .zero := hwait
    cases phase with
    | noted | waiting | admitted => exact ⟨0, List.nil_prefix⟩
    | counted | started | stopped | reported | failed | joined => cases hstarts

theorem JoinLedger.reported {count : Nat} {progress : Nat → JoinProgress}
    (h : JoinLedger waits s count progress v) : ∃ events, v.events = s.events ++ events ∧
      JoinReports waits count events ∧ ∀ shard part, (progress shard).phase = .joined part →
        eventsOf Event.shard? shard events =
          [.shardStarted shard, .shardFinished shard part.rows] := by
  obtain ⟨events, hevents, hwoven⟩ := h.reports
  have htraces : ∀ shard, ∃ rows, (progress shard).trace shard <+:
      waitReport (waits shard) ++ [.shardStarted shard, .shardFinished shard rows] :=
    fun shard => (h.waited shard).trace shard
  refine ⟨events, hevents, ⟨?_, ?_, _, hwoven, htraces⟩, ?_⟩
  · intro e he
    obtain ⟨shard, hshard, hmem⟩ := hwoven.mem he
    obtain ⟨rows, hupTo⟩ := htraces shard
    refine ⟨shard, hshard, ?_⟩
    obtain hwait | hrest := List.mem_append.1 (hupTo.subset hmem)
    · exact .inr (shard?_waitReport hwait)
    · left
      simp only [List.mem_cons, List.not_mem_nil, or_false] at hrest
      obtain rfl | rfl := hrest <;> rfl
  · intro shard
    obtain ⟨rows, hupTo⟩ := htraces shard
    refine ⟨rows, ?_⟩
    rw [hwoven.own shard, ← eventsOf_joined (waits shard) shard rows]
    exact hupTo.filter _
  · intro shard part hjoined
    rw [hwoven.own shard, JoinProgress.trace, hjoined]
    exact eventsOf_joined _ _ _

theorem splitting_course {count : Nat} {folder : Folder} {datasets : List Dataset}
    {schedule : Schedule} {r : Outcome (List ShardSet)}
    (h : origin.Tells (book ++ [⟨.sharding, []⟩]) s) (hzero : s.metrics.rowsSharded = 0)
    (hsplit : fanOut schedule (shardingTasks count folder datasets) s = (r, v)) :
    ∃ events, origin.Tells (book ++ [⟨.sharding, events⟩]) v ∧
      SplitReports datasets.length events ∧ ∀ sets, r = .ok sets → ∀ i, i < datasets.length →
        ∃ rows, eventsOf Event.dataset? i events = [.datasetSharded i rows] := by
  obtain ⟨progress, hlength, hledger, hreturns⟩ :=
    splitting_ledger count folder datasets hzero schedule
  obtain rfl : (Pool.finished _ _ _).state = v := congrArg Prod.snd hsplit
  obtain ⟨events, hevents, hreports, hown⟩ := hledger.reported
  refine ⟨events, h.append book hevents hledger.stage, hreports, ?_⟩
  intro sets hok i hi
  have hresults : (Pool.finished _ _ _).results = sets.map .ok :=
    collect_eq_ok ((congrArg Prod.fst hsplit).trans hok)
  have hset : i < sets.length := by
    rw [← hlength, hresults, List.length_map] at hi
    exact hi
  have hreturn : SplitProgress.Returns (.ok sets[i]) (progress i) :=
    hreturns i _ (by simp [hresults, List.getElem?_eq_getElem hset])
  refine ⟨sets[i].rows, ?_⟩
  rw [hown i, hreturn]
  rfl

theorem joining_course {count : Nat} {folder : Folder} {datasets : List Dataset}
    {sets : List ShardSet} {schedule : Schedule} {r : Outcome (List Part)}
    (h : origin.Tells (book ++ [⟨.shardJoin, []⟩]) s) (hzero : s.metrics.Unjoined)
    (hpermit : 0 < s.permits)
    (hjoin : fanOut schedule (joiningTasks datasets sets folder waits count) s = (r, v)) :
    ∃ events, origin.Tells (book ++ [⟨.shardJoin, events⟩]) v ∧ JoinReports waits count events ∧
      ∀ parts, r = .ok parts → parts.length = count ∧
        ∀ shard part, parts[shard]? = some part → eventsOf Event.shard? shard events =
          [.shardStarted shard, .shardFinished shard part.rows] := by
  obtain ⟨progress, hlength, hledger, hreturns⟩ :=
    joining_ledger datasets sets folder waits count hzero hpermit schedule
  obtain rfl : (Pool.finished _ _ _).state = v := congrArg Prod.snd hjoin
  obtain ⟨events, hevents, hreports, hown⟩ := hledger.reported
  refine ⟨events, h.append book hevents hledger.stage, hreports, ?_⟩
  intro parts hok
  have hresults : (Pool.finished _ _ _).results = parts.map .ok :=
    collect_eq_ok ((congrArg Prod.fst hjoin).trans hok)
  refine ⟨by rw [← hlength, hresults, List.length_map], ?_⟩
  intro shard part hpart
  exact hown shard part (hreturns shard (.ok part) (by simp [hresults, hpart]))

/-! ## The chapters of a run -/

theorem begin_tells (job : Job) (s : Session) {v : Session} (h : (s.begin job).Tells book v) :
    v.events = .runStarted job.datasets.length :: book.flatMap Chapter.text := by
  rw [h.events]
  rfl

theorem prepared_opening {p : Job.Prepared} {schedule : Schedule}
    (h : job.prepared options schedule s = (.ok p, v)) :
    p.coercions.length = job.datasets.length ∧ p.datasets.length = job.datasets.length ∧
      ∃ largest, OpeningReports job.datasets.length p.count
          (.shardCountDecided p.count largest :: coercionReports p.coercions) ∧
        s.Tells ([⟨.keyValidation, []⟩,
          ⟨.typeCoercion, .shardCountDecided p.count largest :: coercionReports p.coercions⟩] ++
            [⟨.sharding, []⟩]) v := by
  have hcourse := prepared_course job options schedule s
  unfold Phase.Meets at hcourse
  rw [h] at hcourse
  obtain ⟨-, hlength, largest, htells⟩ := hcourse
  obtain ⟨o, values, u, -, -, hdatasets, hcoercions, -⟩ := prepared_eq_ok h
  have hcoerced := coerced_coercionReports p.coercions
  rw [hlength] at hcoerced
  refine ⟨hlength, ?_, largest, .inr ⟨largest, _, rfl, .inr hcoerced⟩, htells⟩
  rw [← hlength, hdatasets, hcoercions, List.length_map, List.length_map]

theorem sharding_opening {p : Job.Prepared} {ready split : Session} {files : FileTree}
    {folder : Folder} {r : Outcome (List ShardSet)}
    (h : job.prepared options schedules.coercion (s.begin job) = (.ok p, ready))
    (hsplit : fanOut schedules.sharding (shardingTasks p.count folder p.datasets)
      (ready.withFiles files) = (r, split)) :
    ∃ largest splits, OpeningReports job.datasets.length p.count
        (.shardCountDecided p.count largest :: coercionReports p.coercions) ∧
      SplitReports job.datasets.length splits ∧
      (s.begin job).Tells ([⟨.keyValidation, []⟩,
        ⟨.typeCoercion, .shardCountDecided p.count largest :: coercionReports p.coercions⟩] ++
          [⟨.sharding, splits⟩]) split ∧
      ∀ sets, r = .ok sets → ∀ i, i < job.datasets.length →
        ∃ rows, eventsOf Event.dataset? i splits = [.datasetSharded i rows] := by
  obtain ⟨-, hdatasets, largest, hopening, htells⟩ := prepared_opening h
  have hzero : (ready.withFiles files).metrics.rowsSharded = 0 :=
    congrArg Metrics.rowsSharded (prepared_metrics h)
  obtain ⟨splits, htells, hsplits, hall⟩ :=
    splitting_course (htells.withFiles files) hzero hsplit
  rw [hdatasets] at hsplits hall
  exact ⟨largest, splits, hopening, hsplits, htells, hall⟩

theorem shardJoin_opening {p : Job.Prepared} {ready split joined : Session} {files : FileTree}
    {dir : Scratch} {sets : List ShardSet} {r : Outcome (List Part)}
    (h : job.prepared options schedules.coercion (s.begin job) = (.ok p, ready))
    (hscratch : ready.files.createScratch options.scratchParent = .ok (files, dir))
    (hsplit : fanOut schedules.sharding (shardingTasks p.count (.scratch dir) p.datasets)
      (ready.withFiles files) = (.ok sets, split))
    (hjoin : fanOut schedules.joining
      (joiningTasks p.datasets sets (.scratch dir) schedules.waits p.count)
        (split.admitting options) = (r, joined)) :
    ∃ largest splits joins, OpeningReports job.datasets.length p.count
        (.shardCountDecided p.count largest :: coercionReports p.coercions) ∧
      SplitReports job.datasets.length splits ∧ JoinReports schedules.waits p.count joins ∧
      (s.begin job).Tells ([⟨.keyValidation, []⟩,
        ⟨.typeCoercion, .shardCountDecided p.count largest :: coercionReports p.coercions⟩,
          ⟨.sharding, splits⟩] ++ [⟨.shardJoin, joins⟩]) joined ∧
      (∀ i, i < job.datasets.length →
        ∃ rows, eventsOf Event.dataset? i splits = [.datasetSharded i rows]) ∧
      ∀ parts, r = .ok parts → parts.length = p.count ∧
        ∀ shard part, parts[shard]? = some part → eventsOf Event.shard? shard joins =
          [.shardStarted shard, .shardFinished shard part.rows] := by
  obtain ⟨largest, splits, hopening, hsplits, htells, hall⟩ := sharding_opening h hsplit
  obtain ⟨hzero, -, hpermits⟩ := Job.Begins.counters (.joining h hscratch hsplit)
  have hadmitting : (s.begin job).Tells _ (split.admitting options) :=
    ⟨(htells.enter .shardJoin).events, (htells.enter .shardJoin).stage⟩
  have hpermit : 0 < (split.admitting options).permits := by
    rw [hpermits]
    omega
  obtain ⟨joins, htells, hjoins, hparts⟩ := joining_course hadmitting hzero hpermit hjoin
  exact ⟨largest, splits, joins, hopening, hsplits, hjoins, htells, hall sets rfl, hparts⟩

/-- A run that stops has told its chapters up to there. -/
theorem Job.Stops.course {fault : Fault} (h : job.Stops options schedules s fault v) :
    ∃ count book, (s.begin job).Tells book v ∧
      Chronicle job.datasets.length count schedules.waits book ∧ Broken book v.stage := by
  cases h with
  | early h =>
    have hcourse := prepared_course job options schedules.coercion (s.begin job)
    unfold Phase.Meets at hcourse
    rw [h] at hcourse
    obtain ⟨-, htells | ⟨count, events, hevents, htells⟩⟩ := hcourse
    · refine ⟨0, _, htells, ?_, ?_⟩
      · apply (chronicle_whole (.inl rfl) (splitReports_nil _) (joinReports_nil _ 0)
          (.inl rfl)).part
        exact List.prefix_append _ _
      · rw [htells.stage]
        simp [Broken, Stage.course]
    · refine ⟨count, _, htells, ?_, ?_⟩
      · apply (chronicle_whole hevents (splitReports_nil _) (joinReports_nil _ count)
          (.inl rfl)).part
        exact List.prefix_append _ _
      · rw [htells.stage]
        simp [Broken, Stage.course]
  | @scratch p _ _ h hscratch =>
    obtain ⟨-, -, largest, hopening, htells⟩ := prepared_opening h
    refine ⟨p.count, _, htells, ?_, ?_⟩
    · apply (chronicle_whole hopening (splitReports_nil _) (joinReports_nil _ _)
        (.inl rfl)).part
      exact List.prefix_append _ _
    · rw [htells.stage]
      simp [Broken, Stage.course]
  | @sharding p _ _ _ _ _ h hscratch hsplit =>
    obtain ⟨largest, splits, hopening, hsplits, htells, -⟩ := sharding_opening h hsplit
    refine ⟨p.count, _, htells.withFiles _, ?_, ?_⟩
    · apply (chronicle_whole hopening hsplits (joinReports_nil _ _) (.inl rfl)).part
      exact List.prefix_append _ _
    · rw [(htells.withFiles _).stage]
      simp [Broken, Stage.course]
  | @joining p _ _ _ _ _ _ _ h hscratch hsplit hjoin =>
    obtain ⟨largest, splits, joins, hopening, hsplits, hjoins, htells, -⟩ :=
      shardJoin_opening h hscratch hsplit hjoin
    refine ⟨p.count, _, htells.withFiles _, ?_, ?_⟩
    · apply (chronicle_whole hopening hsplits hjoins (.inl rfl)).part
      exact List.prefix_append _ _
    · rw [(htells.withFiles _).stage]
      simp [Broken, Stage.course]

/-- A run whose tasks have succeeded fails where it assembles or publishes, or completes. -/
theorem Job.Worked.course (w : job.Worked options schedules s) :
    (job.stages options schedules).Meets (s.begin job) fun r v =>
      ∃ book, (s.begin job).Tells book v ∧
        Chronicle job.datasets.length w.prepared.count schedules.waits book ∧
        match r with
        | .ok report => report.shardCount = w.prepared.count ∧ job.Completes report book
        | .error _ => Broken book v.stage := by
  obtain ⟨largest, splits, joins, hopening, hsplits, hjoins, htells, hall, hparts⟩ :=
    shardJoin_opening w.prepares w.creates w.splits w.joins
  obtain ⟨hlength, hshards⟩ := hparts w.parts rfl
  have hcourse := emitOutput_course htells w.prepared.merged job.output w.parts
  unfold Phase.Meets at hcourse
  rcases hemit : emitOutput w.prepared.merged job.output w.parts w.joined with ⟨r, v⟩
  rw [hemit] at hcourse
  obtain ⟨-, hcourse⟩ := hcourse
  apply Phase.meets_of_eq (w.stages_eq hemit)
  cases r with
  | error fault =>
    obtain htold | ⟨rows, htold⟩ := hcourse
    · refine ⟨_, htold.withFiles _, ?_, ?_⟩
      · apply (chronicle_whole hopening hsplits hjoins (.inl rfl)).part
        exact List.prefix_append _ _
      · show Broken _ (v.withFiles _).stage
        rw [(htold.withFiles _).stage]
        simp [Broken, Stage.course]
    · refine ⟨_, htold.withFiles _, ?_, ?_⟩
      · apply (chronicle_whole hopening hsplits hjoins (.inr ⟨rows, _, rfl⟩)).part
        exact List.prefix_append _ _
      · show Broken _ (v.withFiles _).stage
        rw [(htold.withFiles _).stage]
        simp [Broken, Stage.course]
  | ok x =>
    obtain ⟨a, d⟩ := x
    obtain ⟨hrows, htold⟩ := hcourse
    obtain ⟨hcoercions, -⟩ := prepared_opening w.prepares
    refine ⟨_, htold.withFiles _,
      chronicle_whole hopening hsplits hjoins (.inr ⟨a.rows, _, rfl⟩), rfl, ?_⟩
    refine ⟨largest, splits, joins, w.parts.map Part.rows, rfl, hcoercions, hall, ?_, hrows.symm, ?_⟩
    · rw [List.length_map, hlength]
      rfl
    · intro shard n hn
      rw [List.getElem?_map] at hn
      obtain ⟨part, hpart, rfl⟩ := Option.map_eq_some_iff.1 hn
      exact hshards shard part hpart

/-- The stages of a run have told its chapters. -/
theorem stages_course (job : Job) (options : Options) (schedules : Schedules) (s : Session) :
    (job.stages options schedules).Meets (s.begin job) fun r v =>
      ∃ count book, (s.begin job).Tells book v ∧
        Chronicle job.datasets.length count schedules.waits book ∧
        match r with
        | .ok report => report.shardCount = count ∧ job.Completes report book
        | .error _ => Broken book v.stage := by
  obtain hnone | ⟨⟨w⟩⟩ := isEmpty_or_nonempty (job.Worked options schedules s)
  · obtain ⟨fault, v, hstages, hstops⟩ := stages_stop hnone
    apply Phase.meets_of_eq hstages
    exact hstops.course
  · apply w.course.mono
    rintro r v ⟨book, htells, hchronicle, hend⟩
    exact ⟨w.prepared.count, book, htells, hchronicle, hend⟩

/-! ## All reports of a run -/

/-- The last report of a run says what its result is. -/
def Job.Closes (job : Job) (elapsed : Duration) (count : Nat) (book : List Chapter)
    (result : Outcome Report) (last : Event) : Prop :=
  match result with
  | .ok report => last = .runFinished elapsed report.metrics ∧ report.shardCount = count ∧
      job.Completes report book
  | .error fault => ∃ stage, Broken book stage ∧
      last = .runFailed stage fault.severity fault.message

/-- A run reports its beginning, chapters in the order of the stages and its end, and no report
within a chapter is one of these. If it succeeds, every stage, dataset and shard has been reported,
and the rows of all shards are those of the output; if it fails, its end names the stage that it has
entered last, and that is not the last of all. -/
theorem run_traces (job : Job) (options : Options) (schedules : Schedules) (elapsed : Duration)
    (s : Session) :
    let (result, v) := job.run options schedules elapsed s
    ∃ count book last,
      v.events = .runStarted job.datasets.length :: (book.flatMap Chapter.text ++ [last]) ∧
      Chronicle job.datasets.length count schedules.waits book ∧
      (∀ c ∈ book, ∀ e ∈ c.events, e.isMark = false) ∧
      job.Closes elapsed count book result last := by
  obtain ⟨count, book, htells, hchronicle, hend⟩ := stages_course job options schedules s
  rw [run_eq]
  rcases hstages : job.stages options schedules (s.begin job) with ⟨r, u⟩
  rw [hstages] at htells hend
  have htext : u.events = _ := begin_tells job s htells
  cases r with
  | error fault =>
    refine ⟨count, book, _, ?_, hchronicle, hchronicle.not_mark, u.stage, hend, rfl⟩
    simp [Session.emit, htext]
  | ok report =>
    refine ⟨count, book, _, ?_, hchronicle, hchronicle.not_mark, rfl, hend⟩
    simp [Session.emit, htext]

end Equijoin
