import Equijoin.Proofs.Runs.InFlight

/-! # What shards have waited

A shard that has waited for its permit counts its wait and then reports it. Between the two the
counter is ahead of the reports; when all tasks have returned, it is their sum, and nothing else in
a run adds to either.

* `Session.Tallied`: the counter is the sum of the reports.
* `joining_tallied`: the counter once all shards have come to a result.
* `run_tallied`: the counter at the end of every run.
-/

set_option autoImplicit false

namespace Equijoin

variable {job : Job} {options : Options} {schedules : Schedules} {s u v : Session}
  {waits : Nat → Duration}

/-- What has been counted as waited is what has been reported. -/
def Session.Tallied (s : Session) : Prop :=
  s.metrics.throttleWait = .ofNat (s.events.map Event.waited).sum

theorem sum_waited {events : List Event} (h : ∀ e ∈ events, e.waited = 0) :
    (events.map Event.waited).sum = 0 := by
  rw [List.sum_eq_zero_iff]
  intro n hn
  obtain ⟨e, he, rfl⟩ := List.mem_map.1 hn
  exact h e he

namespace Session.Tallied

theorem begin (job : Job) (s : Session) : (s.begin job).Tallied := rfl

theorem withFiles (h : s.Tallied) (files : FileTree) : (s.withFiles files).Tallied := h

/-- Reports on anything but waits may be added. -/
theorem append (h : s.Tallied) {more : List Event}
    (hcounter : u.metrics.throttleWait = s.metrics.throttleWait)
    (hevents : u.events = s.events ++ more) (hmore : ∀ e ∈ more, e.waited = 0) : u.Tallied := by
  unfold Tallied at h ⊢
  rw [hcounter, h, hevents, List.map_append, List.sum_append, sum_waited hmore, Nat.add_zero]

theorem tells (h : s.Tallied) {book : List Chapter} (htells : s.Tells book u)
    (hcounter : u.metrics.throttleWait = s.metrics.throttleWait)
    (hbook : ∀ c ∈ book, ∀ e ∈ c.events, e.waited = 0) : u.Tallied := by
  refine h.append hcounter htells.events fun e he => ?_
  obtain ⟨c, hc, he⟩ := List.mem_flatMap.1 he
  obtain rfl | he := List.mem_cons.1 he
  · rfl
  · exact hbook c hc e he

end Session.Tallied

/-! ## Parts of a run -/

theorem OpeningReports.not_waited {datasets count : Nat} {events : List Event}
    (h : OpeningReports datasets count events) : ∀ e ∈ events, e.waited = 0 := by
  intro e he
  obtain ⟨largest, rfl⟩ | ⟨i, hi⟩ := h.subject e he
  · rfl
  · cases e <;> first | rfl | simp [Event.coerced?] at hi

theorem prepared_tallied {schedule : Schedule} {r : Outcome Job.Prepared} (h : s.Tallied)
    (hprepared : job.prepared options schedule s = (r, v)) : v.Tallied := by
  have hcourse := prepared_course job options schedule s
  unfold Phase.Meets at hcourse
  rw [hprepared] at hcourse
  obtain ⟨hmetrics, hcourse⟩ := hcourse
  have hcounter := congrArg Metrics.throttleWait hmetrics
  cases r with
  | error fault =>
    obtain htells | ⟨count, events, hevents, htells⟩ := hcourse
    · exact h.tells htells hcounter (by simp)
    · exact h.tells htells hcounter (by simpa using hevents.not_waited)
  | ok p =>
    obtain ⟨-, largest, htells⟩ := hcourse
    have hopening : OpeningReports p.coercions.length p.count
        (.shardCountDecided p.count largest :: coercionReports p.coercions) :=
      .inr ⟨largest, _, rfl, .inr (coerced_coercionReports p.coercions)⟩
    exact h.tells htells hcounter (by simpa using hopening.not_waited)

theorem splitting_tallied {count : Nat} {folder : Folder} {datasets : List Dataset}
    {schedule : Schedule} {r : Outcome (List ShardSet)} (h : s.Tallied)
    (hzero : s.metrics.rowsSharded = 0)
    (hsplit : fanOut schedule (shardingTasks count folder datasets) s = (r, v)) : v.Tallied := by
  obtain ⟨progress, -, hledger, -⟩ := splitting_ledger count folder datasets hzero schedule
  obtain rfl : (Pool.finished _ _ _).state = v := congrArg Prod.snd hsplit
  obtain ⟨events, hevents, hwoven⟩ := hledger.reports
  have hcounter := congrArg Metrics.throttleWait hledger.metrics
  refine h.append hcounter hevents fun e he => ?_
  obtain ⟨i, -, hmem⟩ := hwoven.mem he
  cases hprogress : progress i with
  | reported set =>
    rw [hprogress] at hmem
    rw [List.mem_singleton.1 hmem]
    rfl
  | splitting | counted =>
    rw [hprogress] at hmem
    simp [SplitProgress.trace] at hmem

/-- A shard that has come to a result has reported what it has counted. -/
theorem JoinProgress.Returns.waited {r : Outcome Part} {a : JoinProgress} (h : Returns r a)
    (shard : Nat) : ((a.trace shard).map Event.waited).sum = a.wait.word.toNat := by
  have hrest : ∀ events : List Event, (∀ e ∈ events, e.waited = 0) →
      ((waitReport a.wait ++ events).map Event.waited).sum = a.wait.word.toNat := by
    intro events hevents
    rw [List.map_append, List.sum_append, waited_waitReport, sum_waited hevents, Nat.add_zero]
  unfold JoinProgress.trace
  cases r with
  | ok part =>
    rw [h]
    exact hrest _ (by simp [Event.waited])
  | error fault =>
    obtain h | h := h
    · rw [h]
      exact waited_waitReport a.wait
    · rw [h]
      exact hrest _ (by simp [Event.waited])

theorem joining_tallied {datasets : List Dataset} {sets : List ShardSet} {folder : Folder}
    {count : Nat} {schedule : Schedule} {r : Outcome (List Part)} (h : s.Tallied)
    (hzero : s.metrics.Unjoined) (hpermit : 0 < s.permits)
    (hjoin : fanOut schedule (joiningTasks datasets sets folder waits count) s = (r, v)) :
    v.Tallied := by
  obtain ⟨progress, hlength, hledger, hreturns⟩ :=
    joining_ledger datasets sets folder waits count hzero hpermit schedule
  obtain rfl : (Pool.finished _ _ _).state = v := congrArg Prod.snd hjoin
  obtain ⟨events, hevents, hwoven⟩ := hledger.reports
  have hsum : (events.map Event.waited).sum = tally count (·.wait.word.toNat) progress := by
    rw [hwoven.sum Event.waited]
    apply Finset.sum_congr rfl
    intro i hi
    rw [← hlength, Finset.mem_range] at hi
    exact (hreturns i _ (List.getElem?_eq_getElem hi)).waited i
  have hnone : UInt64.ofNat (s.events.map Event.waited).sum = 0 :=
    h.symm.trans hzero.throttled
  unfold Session.Tallied
  rw [hledger.throttled, hevents, List.map_append, List.sum_append, UInt64.ofNat_add, hnone, hsum,
    UInt64.zero_add]

theorem emitOutput_tallied {merged : Schema} {output : Output} {parts : List Part}
    {r : Outcome (Assembled × Descriptor)} (h : s.Tallied)
    (hemit : emitOutput merged output parts s = (r, v)) : v.Tallied := by
  have hcourse := emitOutput_course (Session.Tells.refl s) merged output parts
  unfold Phase.Meets at hcourse
  rw [hemit] at hcourse
  obtain ⟨hmetrics, hcourse⟩ := hcourse
  have hcounter := congrArg Metrics.throttleWait hmetrics
  cases r with
  | error fault =>
    obtain htells | ⟨rows, htells⟩ := hcourse
    · exact h.tells htells hcounter (by simp)
    · exact h.tells htells hcounter (by simp [Event.waited])
  | ok x => exact h.tells hcourse.2 hcounter (by simp [Event.waited])

theorem Job.Split.tallied (x : job.Split options schedules s) {r : Outcome (List Part)}
    (hjoin : fanOut schedules.joining (joiningTasks x.prepared.datasets x.sets (.scratch x.dir)
      schedules.waits x.prepared.count) (x.split.admitting options) = (r, v)) : v.Tallied := by
  have hready := prepared_tallied (.begin job s) x.prepares
  have hsplit := splitting_tallied (hready.withFiles x.files)
    (congrArg Metrics.rowsSharded (prepared_metrics x.prepares)) x.splits
  have hadmitting : (x.split.admitting options).Tallied :=
    hsplit.append rfl rfl fun e he => by rw [List.mem_singleton.1 he]; rfl
  obtain ⟨hzero, -, hpermits⟩ := Job.Begins.counters (.joining x.prepares x.creates x.splits)
  exact joining_tallied hadmitting hzero (by rw [hpermits]; omega) hjoin

theorem Job.Stops.tallied {fault : Fault} (h : job.Stops options schedules s fault v) :
    v.Tallied := by
  cases h with
  | early h => exact prepared_tallied (.begin job s) h
  | scratch h => exact prepared_tallied (.begin job s) h
  | @sharding p ready split files _ _ h hscratch hsplit =>
    have hready := prepared_tallied (.begin job s) h
    have hrows := congrArg Metrics.rowsSharded (prepared_metrics h)
    exact (splitting_tallied (hready.withFiles files) hrows hsplit).withFiles _
  | @joining p ready split joined files dir sets _ h hscratch hsplit hjoin =>
    let x : job.Split options schedules s :=
      ⟨p, ready, dir, files, sets, split, h, hscratch, hsplit⟩
    exact (x.tallied hjoin).withFiles _

/-! ## Runs -/

/-- At the end of every run, whatever its result, what has been counted as waited is the sum of the
waits that have been reported. -/
theorem run_tallied (job : Job) (options : Options) (schedules : Schedules) (elapsed : Duration)
    (s : Session) : (job.run options schedules elapsed s).2.Tallied := by
  have hstages : (job.stages options schedules (s.begin job)).2.Tallied := by
    obtain hnone | ⟨⟨w⟩⟩ := isEmpty_or_nonempty (job.Worked options schedules s)
    · obtain ⟨fault, v, hstages, hstops⟩ := stages_stop hnone
      rw [hstages]
      exact hstops.tallied
    · have hjoined : w.joined.Tallied := w.toSplit.tallied w.joins
      rcases hemit : emitOutput w.prepared.merged job.output w.parts w.joined with ⟨r, v⟩
      rw [w.stages_eq hemit]
      exact (emitOutput_tallied hjoined hemit).withFiles _
  rw [run_eq]
  revert hstages
  rcases job.stages options schedules (s.begin job) with ⟨r, v⟩
  intro hstages
  cases r with
  | ok report => exact hstages.append rfl rfl (fun e he => by rw [List.mem_singleton.1 he]; rfl)
  | error fault => exact hstages.append rfl rfl (fun e he => by rw [List.mem_singleton.1 he]; rfl)

end Equijoin
