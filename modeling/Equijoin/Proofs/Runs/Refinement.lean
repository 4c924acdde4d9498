import Equijoin.Proofs.Runs.Inputs

/-! # A run is a join of whole tables

Whatever the number of shards and the schedules, a run succeeds exactly if all of its inputs can be
loaded whole, and then writes the rows of the join of the whole tables, in the order of their
shards.

* `Job.Provided`: a run can make its own files, and its output can take its places.
* `Job.Worked.loads`, `worked_of_loads`: tasks that succeed, and inputs that can be loaded.
* `Job.Worked.tables_eq`: the tables of the shards are the parts of one join.
* `Job.Loads.leaves`, `run_leaves`: what a run leaves, from its inputs and from its success.
* `run_joins`: what a run comes to, by the join of the whole tables.
-/

set_option autoImplicit false

namespace Equijoin

open FileTree

variable {job : Job} {options : Options} {schedules : Schedules} {s : Session}

/-! ## From tasks to inputs -/

namespace Job.Worked

theorem shardCount (w : job.Worked options schedules s) :
    job.shardCount options s.files = .ok w.prepared.count := by
  obtain ⟨o, values, v, hopening, -⟩ := prepared_eq_ok w.prepares
  exact (opening_eq_ok hopening).1

theorem preparesTo (w : job.Worked options schedules s) :
    List.Forall₂ (fun d d' => ∃ done, d.PreparesTo s.files (d', done)) job.datasets
      w.prepared.datasets := by
  obtain ⟨o, values, v, hopening, hvalues, hdatasets, -⟩ := prepared_eq_ok w.prepares
  have hfiles : o.files = s.files := (opening_eq_ok hopening).2
  have hall := coercion_values hvalues
  rw [hfiles] at hall
  rw [hdatasets, List.forall₂_map_right_iff]
  exact hall.imp fun d value h => ⟨value.2, h⟩

theorem spelled_files (w : job.Worked options schedules s) :
    AgreeOn Location.Spelled s.files w.files :=
  (w.same_ready.mono fun _ _ => trivial).trans
    ((outside_createScratch w.creates).mono (outside_of_spelled w.not_spelled))

theorem spelled_split (w : job.Worked options schedules s) :
    AgreeOn Location.Spelled w.files w.split.files := by
  have hkeep := sharding_keeps w.not_spelled schedules.sharding w.prepared.datasets
    w.prepared.count (w.ready.withFiles w.files)
  rw [w.splits] at hkeep
  exact hkeep.mono fun l hl => Scratch.Outside.unowned (outside_of_spelled w.not_spelled l hl)

theorem splitAll (w : job.Worked options schedules s) :
    SplitAll w.files w.split.files w.dir w.prepared.count w.prepared.datasets w.sets :=
  sharding_values w.not_spelled w.splits

theorem rewritable (w : job.Worked options schedules s) (hplain : job.Plain w.prepared.count) :
    ∀ d ∈ w.prepared.datasets, d.Rewritable d.separator w.prepared.count := fun _ hd =>
  Job.PreparedAs.rewritable w.datasets_prepared w.checked hplain hd

/-- Inputs whose shards could be joined can be loaded whole. -/
theorem loads (w : job.Worked options schedules s) (hplain : job.Plain w.prepared.count)
    (hcount : 0 < w.prepared.count) :
    ∃ tables, job.Loads s.files w.prepared.datasets tables := by
  obtain ⟨tables, htables, -⟩ := w.stores
  obtain ⟨whole, hwhole⟩ := w.splitAll.whole w.spelled_split (w.rewritable hplain) hcount
    fun shard hshard => by
      have hlt : shard < tables.length := by rw [htables.1]; exact hshard
      exact ⟨tables[shard], htables.2 shard _ (List.getElem?_eq_getElem hlt)⟩
  exact ⟨whole, w.preparesTo, ⟨_, w.merges⟩, hwhole.congr w.spelled_files.symm⟩

/-- The tables of the shards are the parts of the join of the whole tables. -/
theorem tables_eq (w : job.Worked options schedules s) (hplain : job.Plain w.prepared.count)
    {tables : List Table} (hloads : LoadsAll s.files w.prepared.datasets tables) {result : Table}
    {places : List Nat} (hjoin : joinTables tables (job.datasets.map Dataset.key) = .ok result)
    (hplaces : result.positions job.leadingKey = .ok places) :
    w.Tables ((List.range w.prepared.count).map (result.shardOf places w.prepared.count)) := by
  obtain ⟨keys, hkeys, -⟩ := w.checked.keys
  rw [hkeys] at hjoin
  have hinputs : w.prepared.datasets.map Dataset.key = job.leadingKey :: keys := by
    rw [← hkeys]
    exact Job.PreparedAs.keys w.datasets_prepared
  refine ⟨by simp, fun shard table htable => ?_⟩
  rw [List.getElem?_map, Option.map_eq_some_iff] at htable
  obtain ⟨n, hn, rfl⟩ := htable
  obtain ⟨hlt, rfl⟩ := List.getElem?_eq_some_iff.1 hn
  rw [List.getElem_range]
  rw [List.length_range] at hlt
  exact w.splitAll.joinsTo w.spelled_split (w.rewritable hplain) (hloads.congr w.spelled_files)
    hinputs hjoin hplaces hlt

end Job.Worked

/-! ## From inputs to tasks -/

/-- A run with so many shards can make its own files, and its output can take its places. -/
structure Job.Provided (job : Job) (options : Options) (files : FileTree) (count : Nat) : Prop where
  scratch : ∃ l, files.freshPlace options.scratchParent scratchNameSize = .ok l
  shards : ∀ i, i < job.datasets.length → ∀ shard, shard < count →
    checkSize (files.pathSize options.scratchParent scratchNameSize + 1 +
      (shardName i shard).utf8ByteSize) = .ok ()
  parts : ∀ shard, shard < count →
    checkSize (files.pathSize options.scratchParent scratchNameSize + 1 +
      (partName shard).utf8ByteSize) = .ok ()
  staged : ∃ l, files.stagingPlace job.output.dataPath = .ok l
  published : ∃ data, Publishable files job.output data
  descriptor : ∃ l, files.destination job.output.schemaPath = .ok l

theorem takes_scratch {t files : FileTree} {parent name : String} {dir : Scratch}
    (h : t.createScratch parent = .ok (files, dir))
    (hsize : checkSize (t.pathSize parent scratchNameSize + 1 + name.utf8ByteSize) = .ok ()) :
    files.Takes (.inside dir name) := by
  obtain ⟨k, hk, hdir, rfl⟩ := createScratch_eq_ok.1 h
  have hfresh : Name.fresh t.nextSerial ∈ dir.location := by
    rw [hdir]
    exact List.mem_append_right k (by simp)
  have hnever : ∀ l : Location, Name.fresh t.nextSerial ∈ l → ¬ l.all (· == .above) := by
    intro l hl hall
    have := List.all_eq_true.1 hall _ hl
    simp at this
  have henter : (t.put dir.location .directory).enter dir.location = .ok () := by
    rw [enter_eq_ok, node?_eq, if_neg (hnever _ hfresh), nodeAt?_put, if_pos rfl]
  have hpath : dir.pathSize = t.pathSize parent scratchNameSize := by rw [hdir]
  refine ⟨dir.location ++ [.given name], ?_, ?_⟩
  · simp only [locate, hpath, hsize, ok_bind, henter]
  · have hbelow : Name.fresh t.nextSerial ∈ dir.location ++ [.given name] :=
      List.mem_append_left _ hfresh
    rw [node?_eq, if_neg (hnever _ hbelow), nodeAt?_put,
      if_neg (location_ne_append _ _).symm, nodeAt?_fresh t hbelow]
    simp

/-- A run that can make its own files gets a directory that takes them. -/
theorem Job.Provided.creates {files t : FileTree} {count : Nat}
    (h : job.Provided options files count) (hsame : Same files t) :
    ∃ u dir, t.createScratch options.scratchParent = .ok (u, dir) ∧
      AgreeOn Location.Spelled files u ∧
      (∀ i, i < job.datasets.length → ∀ shard, shard < count →
        u.Takes (shardPath (.scratch dir) i shard)) ∧
      ∀ shard, shard < count → u.Takes (partPath (.scratch dir) shard) := by
  have hspelled : AgreeOn Location.Spelled files t := hsame.mono fun _ _ => trivial
  have hsize : t.pathSize options.scratchParent scratchNameSize =
      files.pathSize options.scratchParent scratchNameSize := by
    simp only [pathSize, hsame.1]
  obtain ⟨l, hl⟩ := h.scratch
  obtain ⟨l', hl'⟩ := hspelled.keeps.freshPlace hsame.1 hl
  obtain ⟨u, dir, hcreates⟩ : ∃ u dir, t.createScratch options.scratchParent = .ok (u, dir) :=
    ⟨_, _, bind_eq_ok.2 ⟨l', hl', rfl⟩⟩
  have hdir := scratch_not_spelled hcreates
  refine ⟨u, dir, hcreates, hspelled.trans
    ((outside_createScratch hcreates).mono (outside_of_spelled hdir)), ?_, ?_⟩
  · intro i hi shard hshard
    refine takes_scratch hcreates ?_
    rw [hsize]
    exact h.shards i hi shard hshard
  · intro shard hshard
    refine takes_scratch hcreates ?_
    rw [hsize]
    exact h.parts shard hshard

theorem prepared_of_loads {inputs : List Dataset} {tables : List Table} {count : Nat}
    (hcheck : job.check = .ok ()) (hcount : job.shardCount options s.files = .ok count)
    (h : job.Loads s.files inputs tables) (schedule : Schedule) :
    ∃ p u, job.prepared options schedule (s.begin job) = (.ok p, u) ∧ p.count = count ∧
      p.datasets = inputs := by
  obtain ⟨o, hopening, hfiles⟩ := opening_of_shardCount (s := s.begin job) hcheck hcount
  obtain ⟨merged, hmerged⟩ := h.merges
  obtain ⟨values, hvalues, rfl⟩ : ∃ values, List.Forall₂ (Dataset.PreparesTo o.files) job.datasets
      values ∧ values.map Prod.fst = inputs := by
    have hprepares := h.prepares
    rw [hfiles]
    clear hmerged h hcount hcheck hopening
    generalize job.datasets = datasets at hprepares
    induction hprepares with
    | nil => exact ⟨[], .nil, rfl⟩
    | @cons d d' _ _ hd _ ih =>
      obtain ⟨done, hdone⟩ := hd
      obtain ⟨values, hvalues, hinputs⟩ := ih
      exact ⟨(d', done) :: values, .cons hdone hvalues, by rw [List.map_cons, hinputs]⟩
  obtain ⟨v, hfan⟩ := coercion_succeeds hvalues schedule
  have hcoerce := coerceDatasets_apply schedule job.datasets o
  rw [hfan] at hcoerce
  have hmerge : Phase.ofOutcome ((Schema.merge ((values.map Prod.fst).map
      Dataset.schema)).mapError Fault.schema) (reportCoercions (values.map Prod.snd) v) =
        (.ok merged, reportCoercions (values.map Prod.snd) v) := by
    rw [hmerged]
    rfl
  refine ⟨⟨count, values.map Prod.fst, values.map Prod.snd, merged⟩,
    (reportCoercions (values.map Prod.snd) v).enter .sharding, ?_, rfl, rfl⟩
  exact Phase.bind_eq_ok.2 ⟨count, o, hopening, Phase.bind_eq_ok.2 ⟨_, _, hcoerce,
    Phase.bind_eq_ok.2 ⟨merged, _, hmerge, Phase.bind_eq_ok.2 ⟨(), _, rfl, rfl⟩⟩⟩⟩

theorem Table.Rectangular.shardOf {table : Table} (h : table.Rectangular) (places : List Nat)
    (count shard : Nat) : (table.shardOf places count shard).Rectangular :=
  ⟨h.1, fun row hrow => h.2 row (List.mem_filter.1 hrow).1⟩

theorem partPath_seen_unowned {dir : Scratch} {shard : Nat} :
    (partPath (.scratch dir) shard).Seen fun l => ∀ i, ¬ ownsShards dir i l := by
  refine ⟨fun i hown => ?_, fun i hown => ?_⟩
  · obtain ⟨n, hn⟩ := hown
    exact location_ne_append _ _ hn
  · obtain ⟨n, hn⟩ := hown
    exact shardPlace_ne_partPlace hn.symm

theorem splittable_of_load {t : FileTree} {d : Dataset} {table : Table} {dir : Scratch}
    {i count : Nat} (hd : d.Rewritable d.separator count)
    (hload : Table.load t d.path d.separator d.schema = .ok table)
    (htakes : ∀ shard, shard < count → t.Takes (shardPath (.scratch dir) i shard)) :
    d.Splittable t d.separator dir i count := by
  refine fun _ => ⟨?_, htakes⟩
  obtain ⟨sheet, types, places, hopen, -, -, -, hrows⟩ := opened_of_load hd.declared hload
  obtain ⟨routed, hroutes⟩ := hopen.routes count hrows
  exact ⟨sheet, types, places, routed, hroutes⟩

/-- The tasks of a run whose inputs can be loaded succeed, if it can make its own files. -/
theorem worked_of_loads {inputs : List Dataset} {tables : List Table} {count : Nat}
    (hcheck : job.check = .ok ()) (hcount : job.shardCount options s.files = .ok count)
    (hplain : job.Plain count) (hprovided : job.Provided options s.files count)
    (h : job.Loads s.files inputs tables) :
    ∃ w : job.Worked options schedules s, w.prepared.datasets = inputs := by
  have hchecked := Job.checked hcheck
  have hprepared := h.preparedAs
  obtain ⟨p, ready, hready, rfl, rfl⟩ := prepared_of_loads hcheck hcount h schedules.coercion
  have hsame : Same s.files ready.files := by
    have hreads := reads_prepared job options schedules.coercion (s.begin job)
    rw [hready] at hreads
    exact hreads
  obtain ⟨files, dir, hcreates, hspelled, hshards, hparts⟩ := hprovided.creates hsame
  have hdir := scratch_not_spelled hcreates
  have hloads := h.loads.congr hspelled
  have hrewritable : ∀ d ∈ p.datasets, d.Rewritable d.separator p.count := fun d hd =>
    hprepared.rewritable hchecked hplain hd
  -- datasets are split
  have hsplittable : ∀ (i : Nat) (d : Dataset), p.datasets[i]? = some d →
      d.Splittable files d.separator dir i p.count := by
    intro i d hd
    obtain ⟨table, -, hload⟩ := getElem?_of_forall₂ hloads hd
    have hi : i < job.datasets.length := by
      rw [List.Forall₂.length_eq hprepared]
      exact (List.getElem?_eq_some_iff.1 hd).1
    exact splittable_of_load (hrewritable d (List.mem_of_getElem? hd)) hload (hshards i hi)
  obtain ⟨sets, split, hsplits⟩ := sharding_succeeds (o := ready.withFiles files) hdir hsplittable
    schedules.sharding
  have hsplitAll : SplitAll files split.files dir p.count p.datasets sets :=
    sharding_values hdir hsplits
  have hkeep := sharding_keeps hdir schedules.sharding p.datasets p.count (ready.withFiles files)
  rw [hsplits] at hkeep
  have hunowned : ∀ l, Location.Spelled l → ∀ i, ¬ ownsShards dir i l := fun l hl =>
    Scratch.Outside.unowned (outside_of_spelled hdir l hl)
  -- their shards are joined
  obtain ⟨result, places, hjoin, hplaces, hrectangular⟩ := hprepared.joins hchecked h.loads
  obtain ⟨keys, hkeys, -⟩ := hchecked.keys
  rw [hkeys] at hjoin
  have hjoinable : ∀ shard, shard < p.count →
      Joinable split.files (shardInputs p.datasets sets shard) dir shard := by
    intro shard hshard
    have hpart := hsplitAll.joinsTo (hkeep.mono hunowned) hrewritable hloads
      (by rw [hprepared.keys, hkeys]) hjoin hplaces hshard
    obtain ⟨text, htext⟩ := (hrectangular.shardOf places p.count shard).text
    exact ⟨⟨_, text, hpart, htext⟩, hkeep.takes partPath_seen_unowned (hparts shard hshard)⟩
  have hpermit : 0 < (split.admitting options).permits :=
    show 0 < max options.maxInFlight 1 by omega
  obtain ⟨parts, joined, hjoins⟩ := joining_succeeds hdir
    (sets_fit hsplitAll.1 hsplitAll.2) hpermit hjoinable schedules.waits schedules.joining
  exact ⟨⟨p, ready, dir, files, sets, split, parts, joined, hready, hcreates, hsplits, hjoins⟩, rfl⟩

/-! ## Runs -/

theorem outputText_byShard (table : Table) (places : List Nat) {count : Nat} (hcount : 0 < count) :
    outputText table.columns ((List.range count).map (table.shardOf places count)) =
      outputText table.columns [table.byShard places count] := by
  have hlines : ∀ t : Table, t.lines =
      t.rows.flatMap fun row => Csv.writeLine Delimiter.comma (row.map Value.render) := fun t => by
    rw [Table.lines, Table.cells, List.flatMap_map]
  have hrows := rows_byShard table places hcount
  unfold outputText
  refine congrArg _ ?_
  rw [List.flatMap_map, List.flatMap_singleton]
  simp only [hlines]
  rw [← hrows, List.flatMap_assoc]

/-- A run whose tasks succeed and whose output can take its places publishes the join of its
inputs. -/
theorem Job.Worked.publishes (w : job.Worked options schedules s)
    (hplain : job.Plain w.prepared.count) (hcount : 0 < w.prepared.count)
    (hdiff : ∀ l, s.files.destination job.output.dataPath = .ok l →
      s.files.destination job.output.schemaPath ≠ .ok l) {tables : List Table}
    (hloads : LoadsAll s.files w.prepared.datasets tables) {result : Table} {places : List Nat}
    (hjoin : joinTables tables (job.datasets.map Dataset.key) = .ok result)
    (hplaces : result.positions job.leadingKey = .ok places) :
    (∃ fault v, job.stages options schedules (s.begin job) = (.error fault, v) ∧
      ((∃ l, s.files.stagingPlace job.output.dataPath = .ok l) →
        (∃ data, Publishable s.files job.output data) →
          ∀ l, s.files.destination job.output.schemaPath ≠ .ok l)) ∨
    ∃ v report, job.stages options schedules (s.begin job) = (.ok report, v) ∧
      report.shardCount = w.prepared.count ∧ v.files.read job.output.dataPath =
        .ok (outputText result.columns [result.byShard places w.prepared.count]) := by
  have htables := w.tables_eq hplain hloads hjoin hplaces
  have hne : (List.range w.prepared.count).map (result.shardOf places w.prepared.count) ≠ [] := by
    intro hnil
    have hlength := congrArg List.length hnil
    simp only [List.length_map, List.length_range, List.length_nil] at hlength
    omega
  have halike : ∀ table ∈ (List.range w.prepared.count).map
      (result.shardOf places w.prepared.count), table.columns = result.columns := by
    intro table htable
    obtain ⟨shard, -, rfl⟩ := List.mem_map.1 htable
    rfl
  rcases w.ends htables with ⟨fault, v, hstages, -, hnot⟩ | ⟨fault, v, columns, data, hstages, -, -,
    hblocked, -⟩ | ⟨v, columns, data, schema, d, hstages, hstageable, hpub, hschema, hd, hv⟩
  · refine .inl ⟨fault, v, hstages, fun hplace ⟨data, hdata⟩ => ?_⟩
    exact absurd hdata (hnot result.columns ⟨hplace, hne, halike⟩ data)
  · exact .inl ⟨fault, v, hstages, fun _ _ => hblocked⟩
  · refine .inr ⟨v, _, hstages, rfl, ?_⟩
    obtain ⟨table, htable⟩ := List.exists_mem_of_ne_nil _ hne
    have hcolumns : result.columns = columns :=
      (halike table htable).symm.trans (hstageable.alike table htable)
    have hread := (reads_published (hdiff data hpub.place) hpub.place hschema hv).1
    rw [← hcolumns, outputText_byShard result places hcount] at hread
    exact hread

theorem Job.Worked.count_pos (w : job.Worked options schedules s) {report : Report} {v : Session}
    (h : job.stages options schedules (s.begin job) = (.ok report, v)) : 0 < w.prepared.count := by
  obtain ⟨tables, htables, -⟩ := w.stores
  rcases w.ends htables with ⟨fault, v, hstages, -⟩ | ⟨fault, v, columns, data, hstages, -⟩ |
    ⟨v, columns, data, schema, d, -, hstageable, -⟩
  · cases h.symm.trans hstages
  · cases h.symm.trans hstages
  · rw [← htables.1]
    exact List.length_pos_iff.2 hstageable.nonempty

/-- A run leaves the join of whole tables, in the order of so many shards. -/
structure Job.Leaves (job : Job) (options : Options) (schedules : Schedules) (elapsed : Duration)
    (s : Session) (tables : List Table) (count : Nat) (result : Table) (places : List Nat) :
    Prop where
  joins : joinTables tables (job.datasets.map Dataset.key) = .ok result
  placed : result.positions job.leadingKey = .ok places
  reads : (job.run options schedules elapsed s).2.files.read job.output.dataPath =
    .ok (outputText result.columns [result.byShard places count])

/-- A run whose inputs can be loaded leaves their join, if it can make its own files and its output
can take its places. -/
theorem Job.Loads.leaves {elapsed : Duration} {inputs : List Dataset} {tables : List Table}
    {count : Nat} (h : job.Loads s.files inputs tables) (hcheck : job.check = .ok ())
    (hcount : job.shardCount options s.files = .ok count) (hpos : 0 < count)
    (hplain : job.Plain count)
    (hdiff : ∀ l, s.files.destination job.output.dataPath = .ok l →
      s.files.destination job.output.schemaPath ≠ .ok l)
    (hprovided : job.Provided options s.files count) :
    ∃ report result places, (job.run options schedules elapsed s).1 = .ok report ∧
      report.shardCount = count ∧
      job.Leaves options schedules elapsed s tables count result places := by
  obtain ⟨w, rfl⟩ : ∃ w : job.Worked options schedules s, w.prepared.datasets = inputs :=
    worked_of_loads hcheck hcount hplain hprovided h
  cases hcount.symm.trans w.shardCount
  obtain ⟨result, places, hjoin, hplaces, -⟩ := h.preparedAs.joins w.checked h.loads
  rcases w.publishes hplain hpos hdiff h.loads hjoin hplaces with
    ⟨fault, v, -, hnot⟩ | ⟨v, report, hstages, hreport, hread⟩
  · obtain ⟨l, hl⟩ := hprovided.descriptor
    exact absurd hl (hnot hprovided.staged hprovided.published l)
  · obtain ⟨final, hfinal, hsame⟩ : ∃ final, (job.run options schedules elapsed s).1 = .ok final ∧
        final.shardCount = report.shardCount := by
      rw [run_eq, hstages]
      exact ⟨_, rfl, rfl⟩
    refine ⟨final, result, places, hfinal, hsame.trans hreport, hjoin, hplaces, ?_⟩
    rw [run_eq, conclude_files, hstages]
    exact hread

theorem run_leaves {elapsed : Duration} {report : Report}
    (hplain : ∀ count, job.shardCount options s.files = .ok count → job.Plain count)
    (hdiff : ∀ l, s.files.destination job.output.dataPath = .ok l →
      s.files.destination job.output.schemaPath ≠ .ok l)
    (hreport : (job.run options schedules elapsed s).1 = .ok report) :
    ∃ inputs tables result places, job.check = .ok () ∧ job.Loads s.files inputs tables ∧
      0 < report.shardCount ∧
      job.Leaves options schedules elapsed s tables report.shardCount result places := by
  rw [run_eq] at hreport
  obtain ⟨metrics, hok⟩ := conclude_ok hreport
  by_cases hworked : IsEmpty (job.Worked options schedules s)
  · obtain ⟨fault, v, hstages, -⟩ := stages_unworked hworked
    rw [hstages] at hok
    cases hok
  · obtain ⟨w⟩ := not_isEmpty_iff.1 hworked
    rcases hstages : job.stages options schedules (s.begin job) with ⟨r, v⟩
    rw [hstages] at hok
    cases hok
    have hpos := w.count_pos hstages
    have hplain := hplain _ w.shardCount
    obtain ⟨tables, h⟩ := w.loads hplain hpos
    obtain ⟨result, places, hjoin, hplaces, -⟩ := h.preparedAs.joins w.checked h.loads
    rcases w.publishes hplain hpos hdiff h.loads hjoin hplaces with
      ⟨fault, v, hstages', -⟩ | ⟨v, final, hstages', hcount, hread⟩
    · cases hstages.symm.trans hstages'
    · cases hstages.symm.trans hstages'
      have hcount : report.shardCount = w.prepared.count := hcount
      refine ⟨_, tables, result, places, w.check, h, hcount ▸ hpos, hjoin, hplaces, ?_⟩
      rw [run_eq, conclude_files, hstages, hcount]
      exact hread

/-- A run is the join of its whole inputs. If it can make its own files and its output can take its
places, it succeeds exactly if all inputs can be prepared, their schemas merged and their files
loaded whole. Then the output holds the rows of the join of the whole tables, each once, in the
stable order of the shards of their keys: the same rows for every number of shards, and in the order
of the join for one. -/
theorem run_joins (job : Job) (options : Options) (schedules : Schedules) (elapsed : Duration)
    (s : Session) (hcheck : job.check = .ok ()) (hoptions : options.shardCount ≠ some 0)
    (hplain : ∀ count, job.shardCount options s.files = .ok count → job.Plain count)
    (hdiff : ∀ l, s.files.destination job.output.dataPath = .ok l →
      s.files.destination job.output.schemaPath ≠ .ok l)
    (hprovided : ∀ count, job.shardCount options s.files = .ok count →
      job.Provided options s.files count) :
    ((∃ report, (job.run options schedules elapsed s).1 = .ok report) ↔
      ∃ inputs tables, job.Loads s.files inputs tables) ∧
    ∀ inputs tables, job.Loads s.files inputs tables →
      ∃ report result places, (job.run options schedules elapsed s).1 = .ok report ∧
        job.shardCount options s.files = .ok report.shardCount ∧
        joinTables tables (inputs.map Dataset.key) = .ok result ∧
        result.positions job.leadingKey = .ok places ∧
        (job.run options schedules elapsed s).2.files.read job.output.dataPath =
          .ok (outputText result.columns [result.byShard places report.shardCount]) ∧
        (result.byShard places report.shardCount).rows.Perm result.rows ∧
        (report.shardCount = 1 → result.byShard places report.shardCount = result) := by
  refine (fun hjoins => ⟨⟨fun ⟨report, hreport⟩ => ?_, fun ⟨inputs, tables, h⟩ => ?_⟩, hjoins⟩) ?_
  · intro inputs tables h
    have hprepared := h.preparedAs
    obtain ⟨count, hcount⟩ := hprepared.counts (Job.checked hcheck) options
    obtain ⟨report, result, places, hok, rfl, hleaves⟩ := h.leaves hcheck hcount
      (shardCount_pos hoptions hcount) (hplain count hcount) hdiff (hprovided count hcount)
    refine ⟨report, result, places, hok, hcount, hprepared.keys ▸ hleaves.joins, hleaves.placed,
      hleaves.reads, byShard_perm _ _ _, fun hone => ?_⟩
    rw [hone]
    exact byShard_one result places
  · obtain ⟨inputs, tables, -, -, -, h, -⟩ := run_leaves hplain hdiff hreport
    exact ⟨inputs, tables, h⟩
  · obtain ⟨report, -, -, hreport, -⟩ := hjoins inputs tables h
    exact ⟨report, hreport⟩

/-! ## Two inputs in two shards -/

/-- The inputs have rows with one identifier in common. -/
def pairFiles : FileTree :=
  (FileTree.empty.put [.given "a.csv"] (.file (Utf8.encode "id,x\n1,2\n1,4\n"))).put
    [.given "b.csv"] (.file (Utf8.encode "id,y\n3,5\n1,6\n"))

/-- Two shards. -/
def twoShards : Options := ⟨Options.defaultShardSizeLimit, some 2, none, 1, none⟩

theorem plain_pairJob (count : Nat) : pairJob.Plain count := by
  refine ⟨fun _ d hd b hb => ?_, fun _ => by decide⟩
  have hcomma : ∀ d ∈ pairJob.datasets, d.delimiter = some Delimiter.comma := by decide
  cases (hcomma d hd).symm.trans hb
  exact separates_of_mem_candidates (by decide)

theorem provided_pairJob : pairJob.Provided twoShards pairFiles 2 where
  scratch := ⟨[.root, .given "tmp", .fresh 0], by decide⟩
  shards := by decide
  parts := by decide
  staged := ⟨[.fresh 0], by decide⟩
  published := ⟨[.given "out.csv"], by decide, [.fresh 0], by decide⟩
  descriptor := ⟨[.given "out.json"], by decide⟩

theorem loads_pairJob : pairJob.Loads pairFiles pairJob.datasets
    [⟨["id", "x"], [.int64, .int64], [[.int 1, .int 2], [.int 1, .int 4]]⟩,
      ⟨["id", "y"], [.int64, .int64], [[.int 3, .int 5], [.int 1, .int 6]]⟩] where
  prepares := .cons ⟨⟨[], 0⟩, by unfold Dataset.PreparesTo; decide +kernel⟩
    (.cons ⟨⟨[], 0⟩, by unfold Dataset.PreparesTo; decide +kernel⟩ .nil)
  merges := ⟨⟨["id", "id"], ["x", "y"], [], [.int64, .int64], [.int64, .int64], []⟩,
    by decide⟩
  loads := .cons (by decide +kernel) (.cons (by decide +kernel) .nil)

/-- A run of such a job in two shards succeeds, and leaves the join of both inputs. -/
theorem run_joins_pair :
    pairJob.check = .ok () ∧ twoShards.shardCount ≠ some 0 ∧
    (∀ count, pairJob.shardCount twoShards pairFiles = .ok count → pairJob.Plain count) ∧
    (∀ l, pairFiles.destination pairJob.output.dataPath = .ok l →
      pairFiles.destination pairJob.output.schemaPath ≠ .ok l) ∧
    (∀ count, pairJob.shardCount twoShards pairFiles = .ok count →
      pairJob.Provided twoShards pairFiles count) ∧
    ∃ (report : Report) (result : Table) (places : List Nat),
      (pairJob.run twoShards .sequential .zero (.ofFiles pairFiles)).1 = .ok report ∧
      report.shardCount = 2 ∧
      (pairJob.run twoShards .sequential .zero (.ofFiles pairFiles)).2.files.read "out.csv" =
        .ok (outputText result.columns [result.byShard places 2]) := by
  have hcheck : pairJob.check = .ok () := by decide
  have hdata : pairFiles.destination pairJob.output.dataPath = .ok [.given "out.csv"] := by
    decide
  have hschema : pairFiles.destination pairJob.output.schemaPath = .ok [.given "out.json"] := by
    decide
  have hdiff : ∀ l, pairFiles.destination pairJob.output.dataPath = .ok l →
      pairFiles.destination pairJob.output.schemaPath ≠ .ok l := by
    intro l hl hl'
    have hne : ([.given "out.csv"] : Location) ≠ [.given "out.json"] := by decide
    cases hdata.symm.trans hl
    exact hne (Except.ok.inj (hl'.symm.trans hschema))
  have hcount : pairJob.shardCount twoShards pairFiles = .ok 2 := by decide
  have hprovided : ∀ count, pairJob.shardCount twoShards pairFiles = .ok count →
      pairJob.Provided twoShards pairFiles count := by
    intro count h
    cases hcount.symm.trans h
    exact provided_pairJob
  have hplain : ∀ count, pairJob.shardCount twoShards pairFiles = .ok count →
      pairJob.Plain count := fun count _ => plain_pairJob count
  refine ⟨hcheck, by decide, hplain, hdiff, hprovided, ?_⟩
  obtain ⟨report, result, places, hok, hshards, -, -, hread, -⟩ := (run_joins pairJob twoShards
    .sequential .zero (.ofFiles pairFiles) hcheck (by decide) hplain hdiff hprovided).2 _ _
      loads_pairJob
  have htwo : report.shardCount = 2 := Except.ok.inj (hshards.symm.trans hcount)
  rw [htwo] at hread
  exact ⟨report, result, places, hok, htwo, hread⟩

end Equijoin
