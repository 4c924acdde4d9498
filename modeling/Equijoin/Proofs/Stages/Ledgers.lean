import Equijoin.Proofs.Stages.Joining
import Equijoin.Proofs.Stages.Reports

/-! # What tasks do to counters and reports

The tasks of a stage count and report what they do. How far each of them has come determines what
the counters are and which events have been reported.

* `SplitMove`, `shardTask_follows`: the moves of the task of a dataset.
* `JoinMove`, `joinTask_follows`: the moves of the task of a shard.
* `SplitLedger`, `JoinLedger`: the session that tasks have reached, by their progress.
* `splitting_ledger`, `joining_ledger`: the ledgers hold under every schedule.
-/

set_option autoImplicit false

namespace Equijoin

variable {datasets : List Dataset} {sets : List ShardSet} {folder : Folder} {shard : Nat}
  {s s' : Session}

/-! ## Counters -/

/-- A counter is the sum of what the tasks have counted, as far as a word can tell. -/
def Counts {π : Type} (counter : Metrics → UInt64) (count : Nat) (weight : π → Nat)
    (progress : Nat → π) (s : Session) : Prop :=
  counter s.metrics = UInt64.ofNat (tally count weight progress)

theorem Counts.update {π : Type} {counter : Metrics → UInt64} {count i : Nat} {weight : π → Nat}
    {progress : Nat → π} {b : π} (h : Counts counter count weight progress s) (hi : i < count)
    (hmove : counter s'.metrics + UInt64.ofNat (weight (progress i)) =
      counter s.metrics + UInt64.ofNat (weight b)) :
    Counts counter count weight (Function.update progress i b) s' := by
  have hsum := congrArg UInt64.ofNat (tally_update weight progress b hi)
  rw [UInt64.ofNat_add, UInt64.ofNat_add] at hsum
  unfold Counts at h ⊢
  rw [h, ← hsum] at hmove
  exact (UInt64.add_left_inj _).1 hmove

/-! ## The task of a dataset -/

/-- How far the task of a dataset has come. -/
inductive SplitProgress where
  | splitting
  /-- The rows that were written have been counted. -/
  | counted (rows : Nat)
  | reported (set : ShardSet)

namespace SplitProgress

/-- The rows that the task has counted. -/
def rows : SplitProgress → Nat
  | splitting => 0
  | counted rows => rows
  | reported set => set.rows.getD 0

/-- What the task has reported. -/
def trace (i : Nat) : SplitProgress → List Event
  | reported set => [.datasetSharded i set.rows]
  | _ => []

end SplitProgress

/-- What the task of a dataset does next. -/
inductive SplitMove (i : Nat) : SplitProgress → Session → SplitProgress → Session → Prop
  | work (a : SplitProgress) (s : Session) (files : FileTree) :
    SplitMove i a s a (s.withFiles files)
  | count (rows : Nat) (s : Session) :
    SplitMove i .splitting s (.counted rows)
      { s with metrics := s.metrics.addSharded (UInt64.ofNat rows) }
  | report {rows : Nat} {set : ShardSet} (h : set.rows = some rows) (s : Session) :
    SplitMove i (.counted rows) s (.reported set) (s.emit (.datasetSharded i set.rows))
  | pass {set : ShardSet} (h : set.rows = none) (s : Session) :
    SplitMove i .splitting s (.reported set) (s.emit (.datasetSharded i set.rows))

/-- The task of a dataset never waits. -/
def splitProtocol (i : Nat) : Protocol SplitProgress Session where
  moves := SplitMove i
  waits _ _ := False

/-- A dataset that has been split has been reported; one that has not, has not. -/
def SplitProgress.Returns (r : Outcome ShardSet) (a : SplitProgress) : Prop :=
  match r with
  | .ok set => a = .reported set
  | .error _ => a = .splitting

theorem shardTask_follows (count : Nat) (folder : Folder) (i : Nat) (d : Dataset) :
    (shardTask count folder i d).Follows (splitProtocol i) .splitting SplitProgress.Returns := by
  have hreport : ∀ (set : ShardSet) (a : SplitProgress),
      (∀ s, SplitMove i a s (.reported set) (s.emit (.datasetSharded i set.rows))) →
        ((Task.emit (.datasetSharded i set.rows)).bind fun _ => Task.succeed set).Follows
          (splitProtocol i) a SplitProgress.Returns := by
    intro set a hmove
    exact Task.Follows.bind (Task.follows_act hmove rfl)
  unfold shardTask
  apply Task.Follows.bind
  apply (untied_shard (n := 0) d _ count folder).follows
  · exact fun u files => .work .splitting u files
  intro r
  cases r with
  | error fault => exact rfl
  | ok set =>
    cases hrows : set.rows with
    | none =>
      simp only [hrows]
      have h := hreport set .splitting (SplitMove.pass hrows)
      rw [hrows] at h
      exact h
    | some rows =>
      simp only [hrows]
      have h := hreport set (.counted rows) (SplitMove.report hrows)
      rw [hrows] at h
      exact Task.Follows.bind (Task.follows_act (SplitMove.count rows) h)

/-! ## The task of a shard -/

/-- How far the task of a shard has come. -/
inductive JoinPhase where
  /-- It has not been admitted, or has stopped right after that. -/
  | waiting
  | admitted
  /-- What it has waited has been counted, but not reported yet. -/
  | noted
  /-- It is counted among the shards that are being joined. -/
  | counted
  /-- It has been reported as started. -/
  | started
  /-- It is no longer counted among the shards that are being joined. -/
  | stopped (part : Outcome Part)
  | reported (part : Part)
  /-- It has given its permit back, and has no part. -/
  | failed
  /-- It has given its permit back, and has a part. -/
  | joined (part : Part)

namespace JoinPhase

def permits : JoinPhase → Nat
  | waiting | failed | joined _ => 0
  | _ => 1

def starts : JoinPhase → Nat
  | waiting | admitted | noted => 0
  | _ => 1

def ends : JoinPhase → Nat
  | stopped _ | reported _ | failed | joined _ => 1
  | _ => 0

/-- The task is counted among the shards that are being joined. -/
def active : JoinPhase → Nat
  | counted | started => 1
  | _ => 0

/-- The rows of the part that has been written. -/
def rows : JoinPhase → Nat
  | stopped (.ok part) | reported part | joined part => part.rows
  | _ => 0

/-- What the task has reported, if that is what it has waited. -/
def trace (shard : Nat) (wait : Duration) : JoinPhase → List Event
  | noted => []
  | waiting | admitted | counted => waitReport wait
  | started | stopped _ | failed => waitReport wait ++ [.shardStarted shard]
  | reported part | joined part =>
    waitReport wait ++ [.shardStarted shard, .shardFinished shard part.rows]

theorem active_le_permits (a : JoinPhase) : a.active ≤ a.permits := by
  cases a <;> simp [active, permits]

theorem starts_eq (a : JoinPhase) : a.starts = a.ends + a.active := by
  cases a <;> rfl

theorem active_le_starts (a : JoinPhase) : a.active ≤ a.starts := by
  rw [a.starts_eq]
  omega

theorem active_le_one (a : JoinPhase) : a.active ≤ 1 := by
  cases a <;> simp [active]

end JoinPhase

/-- How far the task of a shard has come, and the wait that it has counted. -/
structure JoinProgress where
  phase : JoinPhase
  wait : Duration

namespace JoinProgress

/-- The task has not been admitted, and has not counted any wait. -/
def start : JoinProgress := ⟨.waiting, .zero⟩

def trace (shard : Nat) (a : JoinProgress) : List Event := a.phase.trace shard a.wait

/-- The task has counted what it has waited, or it has not come to joining its shard. -/
def Counted (waited : Duration) (a : JoinProgress) : Prop :=
  a.wait = waited ∨ a.wait = .zero ∧ a.phase.starts = 0

end JoinProgress

/-- The rows of a part, if there is one. -/
def rowsOfPart : Outcome Part → Nat
  | .ok part => part.rows
  | .error _ => 0

/-- What the task of a shard that has waited does next. -/
inductive JoinMove (waited : Duration) (shard : Nat) :
    JoinProgress → Session → JoinProgress → Session → Prop
  | work (a : JoinProgress) (s : Session) (files : FileTree) :
    JoinMove waited shard a s a (s.withFiles files)
  | enter {s s' : Session} (h : s.admit? = some s') :
    JoinMove waited shard .start s ⟨.admitted, .zero⟩ s'
  | note (s : Session) :
    JoinMove waited shard ⟨.admitted, .zero⟩ s ⟨.noted, waited⟩
      { s with metrics := s.metrics.addWait waited }
  | tell (h : waited ≠ .zero) (s : Session) :
    JoinMove waited shard ⟨.noted, waited⟩ s ⟨.admitted, waited⟩ (s.emit (.throttled waited))
  | count (s : Session) :
    JoinMove waited shard ⟨.admitted, waited⟩ s ⟨.counted, waited⟩
      { s with metrics := s.metrics.startShard }
  | start (s : Session) :
    JoinMove waited shard ⟨.counted, waited⟩ s ⟨.started, waited⟩ (s.emit (.shardStarted shard))
  | stop (part : Outcome Part) (s : Session) :
    JoinMove waited shard ⟨.started, waited⟩ s ⟨.stopped part, waited⟩
      { s with metrics := s.metrics.endShard (UInt64.ofNat (rowsOfPart part)) }
  | report (part : Part) (s : Session) :
    JoinMove waited shard ⟨.stopped (.ok part), waited⟩ s ⟨.reported part, waited⟩
      (s.emit (.shardFinished shard part.rows))
  | decline (s : Session) :
    JoinMove waited shard ⟨.admitted, waited⟩ s ⟨.waiting, waited⟩ s.release
  | fail (fault : Fault) (s : Session) :
    JoinMove waited shard ⟨.stopped (.error fault), waited⟩ s ⟨.failed, waited⟩ s.release
  | leave (part : Part) (s : Session) :
    JoinMove waited shard ⟨.reported part, waited⟩ s ⟨.joined part, waited⟩ s.release

/-- The task of a shard waits only for its permit. -/
def joinProtocol (waits : Nat → Duration) (shard : Nat) : Protocol JoinProgress Session where
  moves := JoinMove (waits shard) shard
  waits a s := a.phase = .waiting ∧ s.permits = 0

/-- A shard that has a part has been joined; one that has none has stopped before it was counted, or
after it was no longer counted. -/
def JoinProgress.Returns (r : Outcome Part) (a : JoinProgress) : Prop :=
  match r with
  | .ok part => a.phase = .joined part
  | .error _ => a.phase = .waiting ∨ a.phase = .failed

/-- The same while the task still has its permit. -/
def JoinProgress.Admitted (waited : Duration) (r : Outcome Part) (a : JoinProgress) : Prop :=
  match r with
  | .ok part => a = ⟨.reported part, waited⟩
  | .error _ => a = ⟨.admitted, waited⟩ ∨ ∃ fault, a = ⟨.stopped (.error fault), waited⟩

variable {waits : Nat → Duration}

theorem noteWait_follows {post : Outcome Unit → JoinProgress → Prop}
    (h : post (.ok ()) ⟨.admitted, waits shard⟩) :
    (noteWait (waits shard)).Follows (joinProtocol waits shard) ⟨.admitted, .zero⟩ post := by
  unfold noteWait
  split
  · rename_i hzero
    rw [hzero] at h
    exact h
  · rename_i hwait
    apply Task.Follows.bind
    apply Task.follows_act JoinMove.note
    exact Task.follows_act (JoinMove.tell hwait) h

theorem reportPart_follows (part : Outcome Part) :
    (reportPart shard part).Follows (joinProtocol waits shard) ⟨.started, waits shard⟩
      (JoinProgress.Admitted (waits shard)) := by
  unfold reportPart
  apply Task.Follows.bind
  apply Task.follows_act (b := ⟨.stopped part, waits shard⟩)
  · intro s
    have h : JoinMove (waits shard) shard ⟨.started, _⟩ s ⟨.stopped part, _⟩ _ := .stop part s
    cases part <;> exact h
  · cases part with
    | error fault => exact .inr ⟨fault, rfl⟩
    | ok part =>
      have hmove : ∀ s, JoinMove (waits shard) shard ⟨.stopped (.ok part), _⟩ s
        ⟨.reported part, _⟩ _ := .report part
      exact Task.Follows.bind (t := Task.emit (.shardFinished shard part.rows))
        (Task.follows_act hmove rfl)

theorem joinAdmitted_follows :
    (joinAdmitted datasets sets folder (waits shard) shard).Follows (joinProtocol waits shard)
      ⟨.admitted, .zero⟩ (JoinProgress.Admitted (waits shard)) := by
  have hwork : ∀ s files, (joinProtocol waits shard).moves ⟨.started, waits shard⟩ s
      ⟨.started, waits shard⟩ (s.withFiles files) := fun s files => .work _ s files
  have hjoin : (joinShard (shardInputs datasets sets shard)).Untied fun _ => 0 :=
    untied_joinShard _
  rw [joinAdmitted_eq]
  apply Task.Follows.bind
  apply noteWait_follows
  apply Task.Follows.bind
  refine Task.follows_check (.inl rfl) ?_
  apply Task.Follows.bind
  apply Task.follows_act JoinMove.count
  apply Task.Follows.bind
  apply Task.follows_act JoinMove.start
  apply Task.Follows.caught_bind
  apply hjoin.follows hwork
  intro joined
  apply Task.Follows.bind
  apply Task.follows_act fun s => hwork s _
  cases joined with
  | error fault => exact reportPart_follows (.error fault)
  | ok table =>
    apply Task.Follows.caught_bind
    apply (untied_writePart (n := 0) table _).follows hwork
    exact reportPart_follows

/-- Whatever a task comes to, it leaves the counters even and gives its permit back. -/
theorem joinTask_follows :
    (joinTask datasets sets folder waits shard).Follows (joinProtocol waits shard) .start
      JoinProgress.Returns := by
  unfold joinTask
  apply Task.Follows.bind
  refine Task.follows_check (.inl rfl) ?_
  apply Task.Follows.bind
  apply Task.follows_await (b := ⟨.admitted, .zero⟩)
  · intro s hnone
    refine ⟨rfl, ?_⟩
    cases hs : s.permits with
    | zero => rfl
    | succ n => simp [Session.admit?, hs] at hnone
  · exact fun s s' => JoinMove.enter
  apply Task.Follows.caught_bind
  apply joinAdmitted_follows.mono
  intro part a hpart
  apply Task.Follows.bind
  cases part with
  | ok part =>
    cases hpart
    exact Task.follows_act (JoinMove.leave part) rfl
  | error fault =>
    obtain rfl | ⟨fault', rfl⟩ := hpart
    · exact Task.follows_act JoinMove.decline (.inl rfl)
    · exact Task.follows_act (JoinMove.fail fault') (.inr rfl)

/-! ## One move -/

theorem SplitMove.effect {i : Nat} {a b : SplitProgress} (h : SplitMove i a s b s') :
    s'.metrics.rowsSharded + UInt64.ofNat a.rows = s.metrics.rowsSharded + UInt64.ofNat b.rows ∧
      s'.metrics = { s.metrics with rowsSharded := s'.metrics.rowsSharded } ∧
      s'.stage = s.stage ∧ ∃ more, s'.events = s.events ++ more ∧ b.trace i = a.trace i ++ more ∧
        ∀ e ∈ more, ∀ j, e.dataset? = some j → j = i := by
  have habout : ∀ rows, ∀ e ∈ [Event.datasetSharded i rows], ∀ j, e.dataset? = some j → j = i := by
    rintro rows e he j hj
    obtain rfl := List.mem_singleton.1 he
    exact (Option.some.inj hj).symm
  cases h with
  | work files => exact ⟨rfl, rfl, rfl, [], by simp [Session.withFiles]⟩
  | count rows =>
    refine ⟨?_, rfl, rfl, [], by simp [SplitProgress.trace]⟩
    simp [Metrics.addSharded, SplitProgress.rows]
  | @report _ set hrows =>
    refine ⟨?_, rfl, rfl, [.datasetSharded i set.rows], rfl, rfl, habout _⟩
    simp [Session.emit, SplitProgress.rows, hrows]
  | @pass set hrows =>
    refine ⟨?_, rfl, rfl, [.datasetSharded i set.rows], rfl, rfl, habout _⟩
    simp [Session.emit, SplitProgress.rows, hrows]

section Moves

variable {a b : JoinProgress} {waited : Duration}

theorem JoinMove.permits (h : JoinMove waited shard a s b s') :
    s'.permits + b.phase.permits = s.permits + a.phase.permits := by
  cases h with
  | enter h =>
    obtain ⟨n, hn, rfl⟩ := admit?_eq_some.1 h
    simp [JoinPhase.permits, JoinProgress.start, hn]
  | _ => rfl

theorem JoinMove.counts (h : JoinMove waited shard a s b s') :
    s'.metrics.shardsStarted + UInt64.ofNat a.phase.starts =
        s.metrics.shardsStarted + UInt64.ofNat b.phase.starts ∧
      s'.metrics.shardsFinished + UInt64.ofNat a.phase.ends =
        s.metrics.shardsFinished + UInt64.ofNat b.phase.ends ∧
      s'.metrics.activeShards + UInt64.ofNat a.phase.active =
        s.metrics.activeShards + UInt64.ofNat b.phase.active ∧
      s'.metrics.rowsJoined + UInt64.ofNat a.phase.rows =
        s.metrics.rowsJoined + UInt64.ofNat b.phase.rows := by
  cases h with
  | enter h =>
    obtain ⟨n, -, rfl⟩ := admit?_eq_some.1 h
    simp [JoinProgress.start, JoinPhase.starts, JoinPhase.ends, JoinPhase.active, JoinPhase.rows]
  | stop part =>
    cases part <;> simp [Metrics.endShard, JoinPhase.starts, JoinPhase.ends, JoinPhase.active,
      JoinPhase.rows, rowsOfPart]
  | _ =>
    simp [Metrics.startShard, Metrics.addWait, Session.withFiles, Session.emit, Session.release,
      JoinPhase.starts, JoinPhase.ends, JoinPhase.active, JoinPhase.rows]

/-- A wait is counted when it is noted. -/
theorem JoinMove.wait (h : JoinMove waited shard a s b s') :
    s'.metrics.throttleWait + UInt64.ofNat a.wait.word.toNat =
        s.metrics.throttleWait + UInt64.ofNat b.wait.word.toNat ∧
      (a.Counted waited → b.Counted waited) := by
  cases h with
  | work => exact ⟨rfl, id⟩
  | enter h =>
    obtain ⟨n, -, rfl⟩ := admit?_eq_some.1 h
    exact ⟨rfl, fun _ => .inr ⟨rfl, rfl⟩⟩
  | note =>
    refine ⟨?_, fun _ => .inl rfl⟩
    have hzero : Duration.zero.word = 0 := rfl
    simp [Metrics.addWait, hzero]
  | _ => exact ⟨rfl, fun _ => .inl rfl⟩

/-- A move adds to the reports what it adds to the trace of its shard. -/
theorem JoinMove.reports (h : JoinMove waited shard a s b s') :
    ∃ more, s'.events = s.events ++ more ∧ b.trace shard = a.trace shard ++ more ∧
      ∀ e ∈ more, ∀ j, e.shard? = some j → j = shard := by
  have hown : ∀ {e : Event}, (∀ j, e.shard? = some j → j = shard) →
      ∀ e' ∈ [e], ∀ j, e'.shard? = some j → j = shard := by
    intro e he e' he'
    rwa [List.mem_singleton.1 he']
  cases h with
  | enter h =>
    obtain ⟨n, -, rfl⟩ := admit?_eq_some.1 h
    exact ⟨[], by simp [JoinProgress.trace, JoinProgress.start, JoinPhase.trace]⟩
  | note =>
    refine ⟨[], by simp, ?_, by simp⟩
    simp [JoinProgress.trace, JoinPhase.trace, waitReport]
  | tell hwait =>
    refine ⟨[.throttled waited], rfl, ?_, hown nofun⟩
    simp [JoinProgress.trace, JoinPhase.trace, waitReport, hwait]
  | start =>
    refine ⟨[.shardStarted shard], rfl, rfl, hown fun j hj => ?_⟩
    exact (Option.some.inj hj).symm
  | report part =>
    refine ⟨[.shardFinished shard part.rows], rfl, ?_, hown fun j hj => ?_⟩
    · simp [JoinProgress.trace, JoinPhase.trace]
    · exact (Option.some.inj hj).symm
  | _ =>
    exact ⟨[], by simp [Session.withFiles, Session.release, JoinProgress.trace, JoinPhase.trace]⟩

/-- The most shards at a time are noted when one is counted. -/
theorem JoinMove.peak (h : JoinMove waited shard a s b s') :
    s'.metrics.maxActiveShards = s.metrics.maxActiveShards ∧ b.phase.starts = a.phase.starts ∨
      s'.metrics.maxActiveShards = max s.metrics.maxActiveShards s'.metrics.activeShards ∧
        a.phase = .admitted ∧ b.phase = .counted := by
  cases h with
  | enter h =>
    obtain ⟨n, -, rfl⟩ := admit?_eq_some.1 h
    exact .inl ⟨rfl, rfl⟩
  | count => exact .inr ⟨rfl, rfl, rfl⟩
  | _ => exact .inl ⟨rfl, rfl⟩

theorem JoinMove.rest (h : JoinMove waited shard a s b s') :
    s'.stage = s.stage ∧ s'.metrics.runId = s.metrics.runId ∧
      s'.metrics.rowsSharded = s.metrics.rowsSharded := by
  cases h with
  | enter h =>
    obtain ⟨n, -, rfl⟩ := admit?_eq_some.1 h
    exact ⟨rfl, rfl, rfl⟩
  | _ => exact ⟨rfl, rfl, rfl⟩

end Moves

/-! ## The session by the progress of its tasks -/

/-- The session that splitting datasets has reached. -/
structure SplitLedger (origin : Session) (count : Nat) (progress : Nat → SplitProgress)
    (s : Session) : Prop where
  sharded : Counts Metrics.rowsSharded count SplitProgress.rows progress s
  metrics : s.metrics = { origin.metrics with rowsSharded := s.metrics.rowsSharded }
  stage : s.stage = origin.stage
  reports : ∃ new, s.events = origin.events ++ new ∧
    Woven Event.dataset? count (fun i => (progress i).trace i) new

/-- The session that joining shards has reached. -/
structure JoinLedger (waits : Nat → Duration) (origin : Session) (count : Nat)
    (progress : Nat → JoinProgress) (s : Session) : Prop where
  permits : s.permits + tally count (·.phase.permits) progress = origin.permits
  started : Counts Metrics.shardsStarted count (·.phase.starts) progress s
  finished : Counts Metrics.shardsFinished count (·.phase.ends) progress s
  active : Counts Metrics.activeShards count (·.phase.active) progress s
  joined : Counts Metrics.rowsJoined count (·.phase.rows) progress s
  throttled : Counts Metrics.throttleWait count (·.wait.word.toNat) progress s
  waited : ∀ i, (progress i).Counted (waits i)
  peak : s.metrics.maxActiveShards.toNat ≤ origin.permits
  busy : 0 < tally count (·.phase.starts) progress → 0 < s.metrics.maxActiveShards.toNat
  stage : s.stage = origin.stage
  runId : s.metrics.runId = origin.metrics.runId
  sharded : s.metrics.rowsSharded = origin.metrics.rowsSharded
  reports : ∃ new, s.events = origin.events ++ new ∧
    Woven Event.shard? count (fun i => (progress i).trace i) new

variable {origin : Session} {count : Nat}

theorem Counts.toNat_le {π : Type} {counter : Metrics → UInt64} {weight : π → Nat}
    {progress : Nat → π} (h : Counts counter count weight progress s) :
    (counter s.metrics).toNat ≤ tally count weight progress := by
  rw [h, UInt64.toNat_ofNat']
  exact Nat.mod_le _ _

theorem counts_zero {π : Type} {counter : Metrics → UInt64} {weight : π → Nat} {a : π}
    (hzero : counter s.metrics = 0) (ha : weight a = 0) :
    Counts counter count weight (fun _ => a) s := by
  unfold Counts
  rw [hzero, tally_eq_zero fun _ _ => ha]
  rfl

theorem splitLedger_start (hzero : origin.metrics.rowsSharded = 0) :
    SplitLedger origin count (fun _ => .splitting) origin where
  sharded := counts_zero hzero rfl
  metrics := rfl
  stage := rfl
  reports := ⟨[], by simp, woven_nil fun _ => rfl⟩

theorem splitLedger_keeps (origin : Session) (count : Nat) :
    Pool.Keeps splitProtocol count (SplitLedger origin count) := by
  intro progress s i b s' hi h hmove
  obtain ⟨hrows, hmetrics, hstage, more, hmore, htrace, habout⟩ := SplitMove.effect hmove
  obtain ⟨new, hnew, hwoven⟩ := h.reports
  refine ⟨h.sharded.update hi hrows, ?_, hstage.trans h.stage, new ++ more, ?_, ?_⟩
  · rw [hmetrics, h.metrics]
  · rw [hmore, hnew, List.append_assoc]
  · have htold := hwoven.append hi habout
    rw [← htrace] at htold
    simpa only [Function.apply_update (fun i (a : SplitProgress) => a.trace i)] using htold

/-- The counters of shards stand at zero. -/
structure Metrics.Unjoined (m : Metrics) : Prop where
  started : m.shardsStarted = 0
  finished : m.shardsFinished = 0
  active : m.activeShards = 0
  joined : m.rowsJoined = 0
  throttled : m.throttleWait = 0
  peak : m.maxActiveShards = 0

theorem joinLedger_start (hzero : origin.metrics.Unjoined) :
    JoinLedger waits origin count (fun _ => .start) origin where
  permits := by simp [tally, JoinProgress.start, JoinPhase.permits]
  started := counts_zero hzero.started rfl
  finished := counts_zero hzero.finished rfl
  active := counts_zero hzero.active rfl
  joined := counts_zero hzero.joined rfl
  throttled := counts_zero hzero.throttled rfl
  waited _ := .inr ⟨rfl, rfl⟩
  peak := by simp [hzero.peak]
  busy := by
    intro hbusy
    simp [tally, JoinProgress.start, JoinPhase.starts] at hbusy
  stage := rfl
  runId := rfl
  sharded := rfl
  reports := ⟨[], by simp, woven_nil fun _ => rfl⟩

theorem joinLedger_keeps (waits : Nat → Duration) (origin : Session) (count : Nat) :
    Pool.Keeps (joinProtocol waits) count (JoinLedger waits origin count) := by
  intro progress s i b s' hi h hmove
  obtain ⟨hstarts, hends, hactive, hrows⟩ := JoinMove.counts hmove
  obtain ⟨hwait, hcounted⟩ := JoinMove.wait hmove
  obtain ⟨hstage, hrun, hsharded⟩ := JoinMove.rest hmove
  obtain ⟨new, hnew, hwoven⟩ := h.reports
  obtain ⟨more, hmore, htrace, habout⟩ := JoinMove.reports hmove
  have hsum := fun weight => tally_update weight progress b hi
  have hpermits : s'.permits + tally count (·.phase.permits) (Function.update progress i b) =
      origin.permits := by
    have hheld := JoinMove.permits hmove
    have htotal := h.permits
    have := hsum (·.phase.permits)
    omega
  have hcount := h.active.update hi hactive
  have hlimit : s'.metrics.activeShards.toNat ≤ origin.permits := by
    have hle := hcount.toNat_le
    have := tally_le (fun a : JoinProgress => a.phase.active_le_permits) count
      (Function.update progress i b)
    omega
  have hpeak := JoinMove.peak hmove
  refine ⟨hpermits, h.started.update hi hstarts, h.finished.update hi hends, hcount,
    h.joined.update hi hrows, h.throttled.update hi hwait, ?_, ?_, ?_, hstage.trans h.stage,
    hrun.trans h.runId, hsharded.trans h.sharded, ?_⟩
  · intro j
    by_cases hj : j = i
    · subst hj
      rw [Function.update_self]
      exact hcounted (h.waited j)
    · rw [Function.update_of_ne hj]
      exact h.waited j
  · have hold := h.peak
    obtain ⟨heq, -⟩ | ⟨heq, -, -⟩ := hpeak
    · rwa [heq]
    · rw [heq, UInt64.toNat_max]
      omega
  · intro hbusy
    obtain ⟨heq, hsame⟩ | ⟨heq, ha, hb⟩ := hpeak
    · rw [heq]
      apply h.busy
      have := hsum (·.phase.starts)
      omega
    · rw [heq, UInt64.toNat_max]
      by_cases hearlier : 0 < tally count (·.phase.starts) progress
      · have := h.busy hearlier
        omega
      · -- the first shard to start is the only one that is active
        have hnone : tally count (·.phase.active) progress = 0 := by
          have := tally_le (fun a : JoinProgress => a.phase.active_le_starts) count progress
          omega
        have hone : tally count (·.phase.active) (Function.update progress i b) = 1 := by
          have := hsum (·.phase.active)
          rw [ha, hb] at this
          simp only [JoinPhase.active] at this hnone ⊢
          omega
        have : s'.metrics.activeShards = UInt64.ofNat 1 := by rw [← hone]; exact hcount
        rw [this]
        simp
  · refine ⟨new ++ more, by rw [hmore, hnew, List.append_assoc], ?_⟩
    have htold := hwoven.append hi habout
    rw [← htrace] at htold
    simpa only [Function.apply_update (fun i (a : JoinProgress) => a.trace i)] using htold

/-! ## The stages -/

theorem splitting_follows (count : Nat) (folder : Folder) (datasets : List Dataset)
    (hzero : s.metrics.rowsSharded = 0) :
    (Pool.start (shardingTasks count folder datasets) s).Follows splitProtocol
      (fun _ => SplitProgress.Returns) datasets.length (SplitLedger s datasets.length)
      (fun _ => .splitting) := by
  have hlength : (shardingTasks count folder datasets).length = datasets.length := by
    simp [shardingTasks]
  have htasks : ∀ (i : Nat) (t : Task Session ShardSet),
      (shardingTasks count folder datasets)[i]? = some t →
        t.Follows (splitProtocol i) .splitting SplitProgress.Returns := by
    intro i t ht
    obtain ⟨d, -, rfl⟩ := getElem?_shardingTasks ht
    exact shardTask_follows count folder i d
  rw [← hlength]
  exact Pool.follows_start htasks (splitLedger_start hzero)

/-- Whatever becomes of the tasks that split datasets, what they have counted and reported goes
with their results. -/
theorem splitting_ledger (count : Nat) (folder : Folder) (datasets : List Dataset)
    (hzero : s.metrics.rowsSharded = 0) (schedule : Schedule) :
    let p := Pool.finished schedule (shardingTasks count folder datasets) s
    ∃ progress, p.results.length = datasets.length ∧
      SplitLedger s datasets.length progress p.state ∧
      ∀ (i : Nat) (r : Outcome ShardSet), p.results[i]? = some r →
        SplitProgress.Returns r (progress i) := by
  have hbalanced : ∀ t ∈ shardingTasks count folder datasets, t.Balanced (fun _ => 1) 0 := by
    intro t ht
    obtain ⟨p, -, rfl⟩ := List.mem_map.1 ht
    exact (untied_shardTask _ _ _).balanced
  exact Pool.finished_follows (splitLedger_keeps s _)
    (splitting_follows count folder datasets hzero) hbalanced Nat.one_pos schedule

theorem joining_follows (datasets : List Dataset) (sets : List ShardSet) (folder : Folder)
    (waits : Nat → Duration) (count : Nat) (hzero : s.metrics.Unjoined) :
    (Pool.start (joiningTasks datasets sets folder waits count) s).Follows (joinProtocol waits)
      (fun _ => JoinProgress.Returns) count (JoinLedger waits s count) (fun _ => .start) := by
  have hlength : (joiningTasks datasets sets folder waits count).length = count := by
    simp [joiningTasks]
  have hledger : JoinLedger waits s count (fun _ => .start) s := joinLedger_start hzero
  have htasks : ∀ (i : Nat) (t : Task Session Part),
      (joiningTasks datasets sets folder waits count)[i]? = some t →
        t.Follows (joinProtocol waits i) .start JoinProgress.Returns := by
    intro i t ht
    obtain ⟨-, rfl⟩ := getElem?_joiningTasks ht
    exact joinTask_follows
  have hstart := Pool.follows_start (P := joinProtocol waits) htasks hledger
  rwa [hlength] at hstart

/-- Whatever becomes of the tasks that join shards, what they have counted and reported goes with
their results. -/
theorem joining_ledger (datasets : List Dataset) (sets : List ShardSet) (folder : Folder)
    (waits : Nat → Duration) (count : Nat) (hzero : s.metrics.Unjoined) (hpermit : 0 < s.permits)
    (schedule : Schedule) :
    let p := Pool.finished schedule (joiningTasks datasets sets folder waits count) s
    ∃ progress, p.results.length = count ∧ JoinLedger waits s count progress p.state ∧
      ∀ (i : Nat) (r : Outcome Part), p.results[i]? = some r →
        JoinProgress.Returns r (progress i) := by
  have hbalanced : ∀ t ∈ joiningTasks datasets sets folder waits count,
      t.Balanced Session.permits 0 := by
    intro t ht
    obtain ⟨shard, -, rfl⟩ := List.mem_map.1 ht
    exact balanced_joinTask _ _
  exact Pool.finished_follows (joinLedger_keeps waits s count)
    (joining_follows datasets sets folder waits count hzero) hbalanced hpermit schedule

end Equijoin
