import Equijoin.Proofs.Runs.Readback
import Equijoin.Proofs.Runs.Twins
import Equijoin.Proofs.Runs.Waits

/-! # What an engine counts

An engine makes one run after another and keeps counting them. All other counters are those of the
last run, and say what has become of it.

* `Dataset.ReadAs`: a dataset as a run reads it.
* `Job.JoinedIn`, `Job.Wrote`: the rows of the parts that a run has written.
* `Job.Accounted`: the counters of a run that succeeds.
* `stages_accounts`: the counters at the end of every run.
* `Call`, `history`: the runs of an engine.
* `history_accounts`: the counters after each of them.
-/

set_option autoImplicit false

namespace Equijoin

open FileTree

variable {job : Job} {options : Options} {schedules : Schedules} {s u v : Session}

/-! ## Rows that are split -/

/-- A dataset is prepared, and with the delimiter that it has then its file is read as the sheet. -/
def Dataset.ReadAs (files : FileTree) (d : Dataset) (sheet : Csv.Sheet) : Prop :=
  ∃ d' done, d.PreparesTo files (d', done) ∧ files.readSheet d.path d'.separator = .ok sheet

theorem Dataset.SplitInto.rows {t after : FileTree} {d : Dataset} {delimiter : UInt8}
    {dir : Scratch} {i count : Nat} {set : ShardSet} {sheet : Csv.Sheet}
    (h : d.SplitInto t after delimiter dir i count set)
    (hread : t.readSheet d.path delimiter = .ok sheet) :
    set.rows.getD 0 = if 1 < count then sheet.records.length else 0 := by
  obtain ⟨hcount, rfl⟩ | ⟨hcount, sheet', types, places, routed, hroutes, rfl, -⟩ := h
  · rw [if_neg (by omega)]
    rfl
  · obtain rfl : sheet' = sheet := Except.ok.inj (hroutes.read.symm.trans hread)
    rw [if_pos hcount]
    exact hroutes.routes.length_eq.symm

theorem Job.Worked.exists_sheets (w : job.Worked options schedules s) :
    ∃ sheets, List.Forall₂ (Dataset.ReadAs s.files) job.datasets sheets := by
  have hread : ∀ (i : Nat) (d : Dataset), job.datasets[i]? = some d →
      ∃ sheet, d.ReadAs s.files sheet := by
    intro i d hd
    obtain ⟨d', -, done, hone⟩ := getElem?_of_forall₂ w.preparesTo hd
    obtain ⟨delimiter, sheet, types, places, hopen⟩ := hone.prepared
    exact ⟨sheet, d', done, hone, hopen.read⟩
  obtain ⟨sheets, hlength, hsheets⟩ := exists_list hread
  exact ⟨sheets, forall₂_of_getElem? hlength.symm hsheets⟩

section Sheets

variable {sheets : List Csv.Sheet}

/-- When datasets are split, the file of each is read as the same sheet. -/
theorem Job.Worked.readSheet (w : job.Worked options schedules s)
    (hsheets : List.Forall₂ (Dataset.ReadAs s.files) job.datasets sheets) {i : Nat} {d' : Dataset}
    {sheet : Csv.Sheet} (hd' : w.prepared.datasets[i]? = some d')
    (hsheet : sheets[i]? = some sheet) :
    ∃ d done, job.datasets[i]? = some d ∧ d.PreparesTo s.files (d', done) ∧
      w.files.readSheet d'.path d'.separator = .ok sheet := by
  obtain ⟨d, hd, e, done, hone, hread⟩ := getElem?_of_forall₂ hsheets.flip hsheet
  obtain ⟨e', he', done', hone'⟩ := getElem?_of_forall₂ w.preparesTo hd
  cases hd'.symm.trans he'
  cases hone.symm.trans hone'
  obtain ⟨delimiter, sheet', types, places, hopen⟩ := hone.prepared
  refine ⟨d, done, hd, hone, ?_⟩
  rw [hopen.path_eq, ← hread]
  exact (w.spelled_files.readSheet (p := d.path) (fun _ hl => hl) _).symm

/-- What a run has counted of the sheets of its inputs. -/
theorem Job.Worked.rowsSharded (w : job.Worked options schedules s)
    (hsheets : List.Forall₂ (Dataset.ReadAs s.files) job.datasets sheets) :
    w.split.metrics.rowsSharded = .ofNat
      (if 1 < w.prepared.count then (sheets.map fun x => x.records.length).sum else 0) := by
  have hzero : (w.ready.withFiles w.files).metrics.rowsSharded = 0 :=
    congrArg Metrics.rowsSharded (prepared_metrics w.prepares)
  obtain ⟨progress, hresults, hledger, hreturns⟩ := splitting_ledger w.prepared.count
    (.scratch w.dir) w.prepared.datasets hzero schedules.sharding
  have hstate : (Pool.finished _ _ _).state = w.split := congrArg Prod.snd w.splits
  have hok : (Pool.finished _ _ _).results = w.sets.map .ok :=
    collect_eq_ok (congrArg Prod.fst w.splits)
  have hlength : w.prepared.datasets.length = sheets.length :=
    w.preparesTo.length_eq.symm.trans hsheets.length_eq
  have htotal : tally w.prepared.datasets.length SplitProgress.rows progress =
      (sheets.map fun x => if 1 < w.prepared.count then x.records.length else 0).sum := by
    apply tally_eq_sum hlength.symm
    intro i sheet hsheet
    have hi := (List.getElem?_eq_some_iff.1 hsheet).1
    rw [← hlength] at hi
    have hd' := List.getElem?_eq_getElem hi
    obtain ⟨-, -, -, -, hread⟩ := w.readSheet hsheets hd' hsheet
    rw [← w.sets_length] at hi
    have hset := List.getElem?_eq_getElem hi
    have hreturn : SplitProgress.Returns (.ok _) (progress i) :=
      hreturns i _ (by rw [hok, List.getElem?_map, hset]; rfl)
    rw [hreturn]
    exact (w.splitAll.2 i _ _ hd' hset).rows hread
  rw [hstate] at hledger
  rw [hledger.sharded, htotal]
  by_cases hcount : 1 < w.prepared.count
  · simp [hcount]
  · simp [hcount]

end Sheets

/-! ## Rows that are joined -/

/-- The pool in which all shards of the run have come to a result. -/
def Job.JoinedIn (job : Job) (options : Options) (schedules : Schedules) (s : Session)
    (p : Pool Session Part) : Prop :=
  ∃ tasks u, job.Begins options schedules s .shardJoin Part tasks u ∧
    p = Pool.finished schedules.joining tasks u

/-- The run has written parts with so many rows in all; none, unless it has come to joining shards.
-/
def Job.Wrote (job : Job) (options : Options) (schedules : Schedules) (s : Session) (rows : Nat) :
    Prop :=
  ((∀ p, ¬ job.JoinedIn options schedules s p) ∧ rows = 0) ∨
    ∃ p, job.JoinedIn options schedules s p ∧ rows = (p.results.map rowsOfPart).sum ∧
      ∀ part, .ok part ∈ p.results → ∃ table, part.Stores p.state.files table

/-- What a task with a result has ensured still holds when all tasks have returned. -/
theorem finished_orderly {α : Type} {owns : Nat → Location → Prop} {free : Session → Nat}
    {tasks : List (Task Session α)} {post : Nat → Outcome α → Session → Prop}
    (h : Orderly owns free tasks s post) (hfree : 0 < free s) (schedule : Schedule) {i : Nat} {a : α}
    (hresult : (Pool.finished schedule tasks s).results[i]? = some (.ok a)) :
    ∃ u, AgreeOn (Unowned owns i) u.files (Pool.finished schedule tasks s).state.files ∧
      post i (.ok a) u := by
  obtain ⟨rest, hrest⟩ := ((Pool.start tasks s).run schedule).finish_eq_run
  obtain ⟨held, haccounts⟩ := (Pool.accounts_start (s := s) h.balanced).run schedule
  have hended := haccounts.ended_finish hfree
  rw [← Pool.length_finish] at hended
  have hmember := (Pool.getElem?_results hended i _).1 hresult
  have htracks := (Pool.tracks_start (s := s) (region_agrees (AgreeOn.refl _ _)) h.ensures).run
    (region_apart owns) (schedule ++ rest)
  rw [Pool.run_append, ← hrest] at htracks
  obtain ⟨-, u, hu, hpost⟩ | ⟨-, hcancelled⟩ := htracks.course i _ hmember
  · exact ⟨u, hu, hpost⟩
  · cases hcancelled

/-- What joining shards has counted once all of them have come to a result. -/
theorem joining_accounts (datasets : List Dataset) (sets : List ShardSet) (folder : Folder)
    (waits : Nat → Duration) (count : Nat) (hzero : s.metrics.Unjoined) (hpermit : 0 < s.permits)
    (schedule : Schedule) :
    let p := Pool.finished schedule (joiningTasks datasets sets folder waits count) s
    p.state.metrics.shardsStarted = p.state.metrics.shardsFinished ∧
      p.state.metrics.rowsJoined = .ofNat (p.results.map rowsOfPart).sum ∧
      p.state.metrics.runId = s.metrics.runId ∧
      p.state.metrics.rowsSharded = s.metrics.rowsSharded ∧
      ∀ parts : List Part, p.results = parts.map .ok → parts.length = count ∧
        p.state.metrics.shardsStarted = .ofNat count ∧
        (0 < count → 1 ≤ p.state.metrics.maxActiveShards) := by
  intro p
  obtain ⟨progress, hlength, hledger, hreturns⟩ :=
    joining_ledger datasets sets folder waits count hzero hpermit schedule
  have heven : tally count (·.phase.starts) progress = tally count (·.phase.ends) progress := by
    apply Finset.sum_congr rfl
    intro i hi
    rw [← hlength, Finset.mem_range] at hi
    exact (hreturns i _ (List.getElem?_eq_getElem hi)).starts
  have hrows : tally count (·.phase.rows) progress = (p.results.map rowsOfPart).sum :=
    tally_eq_sum hlength fun i r hr => (hreturns i r hr).rows
  refine ⟨?_, ?_, hledger.runId, hledger.sharded, ?_⟩
  · rw [hledger.started, hledger.finished, heven]
  · rw [hledger.joined, hrows]
  · intro parts hparts
    have hcount : parts.length = count := by rw [← hlength, hparts, List.length_map]
    have hstarts : tally count (·.phase.starts) progress = count := by
      have hone : tally count (·.phase.starts) progress = (parts.map fun _ => 1).sum := by
        apply tally_eq_sum hcount
        intro i part hpart
        have hr : p.results[i]? = some (.ok part) := by simp [hparts, hpart]
        have hreturn : JoinProgress.Returns (.ok part) (progress i) := hreturns i _ hr
        rw [show (progress i).phase = .joined part from hreturn]
        rfl
      rw [hone]
      simpa using hcount
    refine ⟨hcount, by rw [hledger.started, hstarts], ?_⟩
    intro hpos
    have hbusy := hledger.busy (by rw [hstarts]; exact hpos)
    exact UInt64.le_iff_toNat_le.2 hbusy

/-- The counters of a run that has come to joining its shards. -/
theorem Job.Split.accounts (x : job.Split options schedules s) :
    let p := Pool.finished schedules.joining (joiningTasks x.prepared.datasets x.sets
      (.scratch x.dir) schedules.waits x.prepared.count) (x.split.admitting options)
    job.JoinedIn options schedules s p ∧
      p.state.metrics.shardsStarted = p.state.metrics.shardsFinished ∧
      job.Wrote options schedules s (p.results.map rowsOfPart).sum ∧
      p.state.metrics.rowsJoined = .ofNat (p.results.map rowsOfPart).sum ∧
      p.state.metrics.runId = s.metrics.runId + 1 ∧
      p.state.metrics.rowsSharded = x.split.metrics.rowsSharded ∧
      ∀ parts : List Part, p.results = parts.map .ok → parts.length = x.prepared.count ∧
        p.state.metrics.shardsStarted = .ofNat x.prepared.count ∧
        (0 < x.prepared.count → 1 ≤ p.state.metrics.maxActiveShards) := by
  intro p
  have hbegins : job.Begins options schedules s .shardJoin Part _ _ :=
    .joining x.prepares x.creates x.splits
  obtain ⟨hzero, hrun, hpermits⟩ := hbegins.counters
  have hpermit : 0 < (x.split.admitting options).permits := by
    rw [hpermits]
    omega
  obtain ⟨heven, hrows, hid, hsharded, hok⟩ := joining_accounts x.prepared.datasets x.sets
    (.scratch x.dir) schedules.waits x.prepared.count hzero hpermit schedules.joining
  have hjoined : job.JoinedIn options schedules s p := ⟨_, _, hbegins, rfl⟩
  refine ⟨hjoined, heven, .inr ⟨p, hjoined, rfl, ?_⟩, hrows, hid.trans hrun, hsharded, hok⟩
  intro part hpart
  obtain ⟨shard, hshard⟩ := List.mem_iff_getElem?.1 hpart
  have hfits : ∀ shard, shard < x.prepared.count → ∀ set ∈ x.sets, set.Fits x.dir shard :=
    fun shard hshard set => x.fits hshard set
  obtain ⟨w, hw, hjoin⟩ := finished_orderly (orderly_joining x.prepared.datasets
    schedules.waits x.not_spelled hfits hpermit) hpermit schedules.joining hshard
  obtain ⟨table, text, -, htext, rfl, hread⟩ := (hjoin.1 part rfl).congr hw
  exact ⟨table, rfl, rfl, text, htext, hread⟩

/-! ## The counters of a run -/

/-- The counters of a run that succeeds. -/
structure Job.Accounted (job : Job) (files : FileTree) (report : Report) (m : Metrics) : Prop where
  joined : m.rowsJoined = .ofNat report.outputRows
  started : m.shardsStarted = .ofNat report.shardCount
  finished : m.shardsFinished = .ofNat report.shardCount
  active : 1 ≤ m.maxActiveShards
  /-- Datasets that are not split are not counted. -/
  sharded : ∃ sheets, List.Forall₂ (Dataset.ReadAs files) job.datasets sheets ∧ m.rowsSharded =
    .ofNat (if 1 < report.shardCount then (sheets.map fun x => x.records.length).sum else 0)

theorem Job.Stops.accounts {fault : Fault} (h : job.Stops options schedules s fault v) :
    v.metrics.runId = s.metrics.runId + 1 ∧ v.metrics.shardsStarted = v.metrics.shardsFinished ∧
      ∃ rows, job.Wrote options schedules s rows ∧ v.metrics.rowsJoined = .ofNat rows := by
  have hnone : IsEmpty (job.Split options schedules s) → job.Wrote options schedules s 0 := by
    intro hnone
    refine .inl ⟨?_, rfl⟩
    rintro p ⟨tasks, u, hbegins, -⟩
    cases hbegins with
    | joining h hscratch hsets => exact hnone.false ⟨_, _, _, _, _, _, h, hscratch, hsets⟩
  cases h with
  | early h =>
    have hmetrics := (prepared_course job options schedules.coercion (s.begin job)).1
    rw [h] at hmetrics
    have hv : v.metrics = s.metrics.beginRun := hmetrics
    rw [hv]
    refine ⟨rfl, rfl, 0, hnone ⟨?_⟩, rfl⟩
    rintro ⟨p, ready, dir, files, sets, split, h', -, -⟩
    cases h.symm.trans h'
  | scratch h hscratch =>
    have hv : v.metrics = s.metrics.beginRun := prepared_metrics h
    rw [hv]
    refine ⟨rfl, rfl, 0, hnone ⟨?_⟩, rfl⟩
    rintro ⟨p, ready, dir, files, sets, split, h', hscratch', -⟩
    cases h.symm.trans h'
    cases hscratch.symm.trans hscratch'
  | @sharding p ready split files dir fault h hscratch hsplit =>
    have hv := sharding_metrics h hsplit
    show split.metrics.runId = _ ∧ split.metrics.shardsStarted = split.metrics.shardsFinished ∧
      ∃ rows, _ ∧ split.metrics.rowsJoined = _
    rw [hv]
    refine ⟨rfl, rfl, 0, hnone ⟨?_⟩, rfl⟩
    rintro ⟨p', ready', dir', files', sets, split', h', hscratch', hsplit'⟩
    cases h.symm.trans h'
    cases hscratch.symm.trans hscratch'
    cases hsplit.symm.trans hsplit'
  | @joining p ready split joined files dir sets fault h hscratch hsplit hjoin =>
    let x : job.Split options schedules s :=
      ⟨p, ready, dir, files, sets, split, h, hscratch, hsplit⟩
    obtain ⟨-, heven, hwrote, hrows, hrun, -⟩ := x.accounts
    have hstate : (Pool.finished _ _ _).state = joined := congrArg Prod.snd hjoin
    rw [hstate] at heven hrows hrun
    exact ⟨hrun, heven, _, hwrote, hrows⟩

theorem Job.Worked.accounts (w : job.Worked options schedules s) :
    (job.stages options schedules).Meets (s.begin job) fun r v =>
      v.metrics.runId = s.metrics.runId + 1 ∧ v.metrics.shardsStarted = v.metrics.shardsFinished ∧
      (∃ rows, job.Wrote options schedules s rows ∧ v.metrics.rowsJoined = .ofNat rows) ∧
      ∀ report, r = .ok report → job.Accounted s.files report v.metrics := by
  have haccounts := w.toSplit.accounts
  dsimp only [Job.Worked.toSplit] at haccounts
  obtain ⟨-, heven, hwrote, hrows, hrun, hsharded, hall⟩ := haccounts
  have hstate : (Pool.finished _ _ _).state = w.joined := congrArg Prod.snd w.joins
  have hok : (Pool.finished _ _ _).results = w.parts.map .ok :=
    collect_eq_ok (congrArg Prod.fst w.joins)
  obtain ⟨hlength, hstarted, hactive⟩ := hall w.parts hok
  rw [hstate] at heven hrows hrun hsharded hstarted hactive
  have hcourse :=
    emitOutput_course (Session.Tells.refl w.joined) w.prepared.merged job.output w.parts
  unfold Phase.Meets at hcourse
  rcases hemit : emitOutput w.prepared.merged job.output w.parts w.joined with ⟨r, v⟩
  rw [hemit] at hcourse
  obtain ⟨hmetrics, hend⟩ := hcourse
  have hstages := w.stages_eq hemit
  apply Phase.meets_of_eq hstages
  have hv : (v.withFiles (v.files.removeScratch w.dir)).metrics = w.joined.metrics := hmetrics
  rw [hv]
  refine ⟨hrun, heven, ⟨_, hwrote, hrows⟩, ?_⟩
  intro report hreport
  rw [hreport] at hstages
  have hpos := w.count_pos hstages
  obtain ⟨⟨a, d⟩, rfl, rfl⟩ := map_eq_ok.1 hreport
  obtain ⟨hsum, -⟩ := hend
  obtain ⟨sheets, hsheets⟩ := w.exists_sheets
  refine ⟨?_, hstarted, heven ▸ hstarted, hactive hpos, sheets, hsheets, ?_⟩
  · have hparts : (w.parts.map .ok).map rowsOfPart = w.parts.map Part.rows := by
      rw [List.map_map]
      rfl
    rw [hrows, hok, hparts]
    exact congrArg UInt64.ofNat hsum.symm
  · exact hsharded.trans (w.rowsSharded hsheets)

/-- The counters at the end of every run. -/
theorem stages_accounts (job : Job) (options : Options) (schedules : Schedules) (s : Session) :
    (job.stages options schedules).Meets (s.begin job) fun r v =>
      v.metrics.runId = s.metrics.runId + 1 ∧ v.metrics.shardsStarted = v.metrics.shardsFinished ∧
      (∃ rows, job.Wrote options schedules s rows ∧ v.metrics.rowsJoined = .ofNat rows) ∧
      ∀ report, r = .ok report → job.Accounted s.files report v.metrics := by
  obtain hnone | ⟨⟨w⟩⟩ := isEmpty_or_nonempty (job.Worked options schedules s)
  · obtain ⟨fault, v, hstages, hstops⟩ := stages_stop hnone
    obtain ⟨hrun, heven, hrows⟩ := hstops.accounts
    apply Phase.meets_of_eq hstages
    exact ⟨hrun, heven, hrows, nofun⟩
  · exact w.accounts

/-- The counters do not change once a run has ended. -/
theorem run_accounts (job : Job) (options : Options) (schedules : Schedules) (elapsed : Duration)
    (s : Session) :
    let (result, v) := job.run options schedules elapsed s
    v.metrics.runId = s.metrics.runId + 1 ∧ v.metrics.shardsStarted = v.metrics.shardsFinished ∧
      (∃ rows, job.Wrote options schedules s rows ∧ v.metrics.rowsJoined = .ofNat rows) ∧
      ∀ report, result = .ok report → job.Accounted s.files report v.metrics := by
  have haccounts := stages_accounts job options schedules s
  unfold Phase.Meets at haccounts
  rw [run_eq]
  rcases hstages : job.stages options schedules (s.begin job) with ⟨r, v⟩
  rw [hstages] at haccounts
  obtain ⟨hrun, heven, hrows, hok⟩ := haccounts
  cases r with
  | error fault => exact ⟨hrun, heven, hrows, nofun⟩
  | ok report =>
    refine ⟨hrun, heven, hrows, ?_⟩
    rintro report' hreport
    cases hreport
    have h := hok report rfl
    exact ⟨h.joined, h.started, h.finished, h.active, h.sharded⟩

/-! ## The records of an output -/

/-- An output with so many records has been put in its place. The text has a line for its header and
one for each of them, and a reader finds as many, unless the header is a byte order mark alone. -/
def Job.Publishes (job : Job) (files after : FileTree) (count : Nat) : Prop :=
  ∃ (header : List String) (records : List (List String)) (data schema : Location)
    (descriptor : Bytes),
    let text := (header :: records).flatMap (Csv.writeLine Delimiter.comma)
    records.length = count ∧
    (header ≠ [String.ofList [Csv.mark]] →
      (Csv.scan Delimiter.comma text).length = count + 1) ∧
    files.destination job.output.dataPath = .ok data ∧
    files.destination job.output.schemaPath = .ok schema ∧
    Same ((files.put data (.file text)).put schema (.file descriptor)) after ∧
    (schema ≠ data → after.read job.output.dataPath = .ok text)

theorem run_publishes_rows {elapsed : Duration} {report : Report}
    (hreport : (job.run options schedules elapsed s).1 = .ok report) :
    job.Publishes s.files (job.run options schedules elapsed s).2.files report.outputRows := by
  obtain ⟨w, tables, columns, data, schema, htables, -, hstageable, hrows, -, hdata, hschema,
    hfiles⟩ := published_of_ok hreport
  obtain ⟨joined, rfl, hstacks, htyped, hcells, hcolumns⟩ :=
    w.stacks htables hstageable.nonempty hstageable.alike
  have hwidth := htyped.length_cells hcells
  have hcount : joined.cells.length = report.outputRows := by
    rw [Table.cells, List.length_map, hstacks.rows]
    exact hrows
  have htext : outputText joined.columns tables =
      (joined.columns :: joined.cells).flatMap (Csv.writeLine Delimiter.comma) := by
    rw [outputText_eq hstacks, List.flatMap_cons]
  rw [htext] at hfiles
  refine ⟨joined.columns, joined.cells, data, schema, _, hcount, ?_, hdata, hschema, hfiles, ?_⟩
  · intro hlone
    rw [← hcount]
    refine Csv.length_scan_lines ⟨by decide, by decide⟩ ?_ hlone
    intro r hr
    obtain rfl | hr := List.mem_cons.1 hr
    · exact hcolumns
    · rw [← List.length_pos_iff, hwidth r hr]
      exact List.length_pos_iff.2 hcolumns
  · exact fun hne => read_published hne hdata hschema hfiles

/-! ## One run after another -/

/-- A call of an engine: the files that it finds, the job, how its tasks interleave, and the time
that it takes. -/
structure Call where
  files : FileTree
  job : Job
  schedules : Schedules
  elapsed : Duration

/-- The run that is called for, after what the engine has done so far. -/
def Call.run (c : Call) (options : Options) (s : Session) : Outcome Report × Session :=
  c.job.run options c.schedules c.elapsed (s.withFiles c.files)

/-- The session of an engine after some calls. Each of them finds files of its own, as others may
have changed them since the last. -/
def history (options : Options) (calls : List Call) : Session :=
  calls.foldl (fun s c => (c.run options s).2) (.ofFiles .empty)

theorem runId_history (options : Options) (calls : List Call) :
    (history options calls).metrics.runId = .ofNat calls.length := by
  have hfrom : ∀ s : Session, (calls.foldl (fun s c => (c.run options s).2) s).metrics.runId =
      s.metrics.runId + .ofNat calls.length := by
    induction calls with
    | nil =>
      intro s
      simp
    | cons c calls ih =>
      intro s
      have hone : (c.run options s).2.metrics.runId = s.metrics.runId + 1 :=
        (run_accounts c.job options c.schedules c.elapsed (s.withFiles c.files)).1
      rw [List.foldl_cons, ih, hone, List.length_cons, UInt64.ofNat_add, UInt64.add_assoc,
        UInt64.add_comm 1]
      rfl
  rw [history, hfrom]
  simp [Session.ofFiles, Metrics.zero]

/-- After every call an engine has counted its runs, and all other counters and the result are those
of the same call on a new engine. The time that shards have waited is the sum of the waits that the
run has reported. Each counter of a run that succeeds is what its report and its output say; of one
that fails, as many shards have finished as have started, and the rows are those of the parts that
have been written. -/
theorem history_accounts (options : Options) (calls : List Call) (c : Call) :
    let (result, v) := c.run options (history options calls)
    let (result', v') := c.run options (.ofFiles .empty)
    v.metrics = { v'.metrics with runId := .ofNat (calls.length + 1) } ∧
      result = result'.map (fun report => { report with metrics := v.metrics.snapshot }) ∧
      v.metrics.throttleWait = .ofNat (v.events.map Event.waited).sum ∧
      match result with
      | .ok report => c.job.Accounted c.files report v.metrics ∧
          c.job.Publishes c.files v.files report.outputRows
      | .error _ => v.metrics.shardsStarted = v.metrics.shardsFinished ∧
          ∃ rows, c.job.Wrote options c.schedules ((history options calls).withFiles c.files) rows ∧
            v.metrics.rowsJoined = .ofNat rows := by
  let s := (history options calls).withFiles c.files
  have htwins := run_twins c.job options c.schedules c.elapsed s
  have haccounts := run_accounts c.job options c.schedules c.elapsed s
  have htallied := run_tallied c.job options c.schedules c.elapsed s
  have hpublishes : ∀ report,
      (c.job.run options c.schedules c.elapsed s).1 = .ok report → c.job.Publishes s.files _ _ :=
    fun report => run_publishes_rows
  have hnumber : s.metrics.runId = .ofNat calls.length := runId_history options calls
  have hold : c.run options (history options calls) =
      c.job.run options c.schedules c.elapsed s := rfl
  have hnew : c.run options (.ofFiles .empty) =
      c.job.run options c.schedules c.elapsed (.ofFiles s.files) := rfl
  rw [hold, hnew]
  generalize c.job.run options c.schedules c.elapsed s = x at htwins haccounts htallied hpublishes
  generalize c.job.run options c.schedules c.elapsed (.ofFiles s.files) = y at htwins
  obtain ⟨r, v⟩ := x
  obtain ⟨r', v'⟩ := y
  obtain ⟨-, hmetrics, hresult⟩ := htwins
  obtain ⟨hrun, heven, hrows, hok⟩ := haccounts
  rw [hrun, hnumber] at hmetrics
  refine ⟨hmetrics.trans (by rw [UInt64.ofNat_add]; rfl), hresult, htallied, ?_⟩
  cases r with
  | ok report => exact ⟨hok report rfl, hpublishes report rfl⟩
  | error fault => exact ⟨heven, hrows⟩

end Equijoin
