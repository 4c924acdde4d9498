import Equijoin.Proofs.Runs.Emission
import Equijoin.Proofs.Tables.Checks

/-! # What a run leaves behind

A run that succeeds has written both files of its output. A run that fails leaves all files as they
were, unless the output has taken its place and its descriptor cannot.

* `Job.Worked.stores`: the parts of a run hold the joined tables of its shards.
* `Job.Worked.reconciles`: the output of a run has a descriptor.
* `Job.Worked.stages_eq`: a run whose tasks succeed ends as its publication does.
* `stages_unworked`: a run whose tasks do not succeed leaves all files as they were.
* `Job.Worked.ends`, `Job.Halfway`: how a run whose tasks succeed ends.
* `run_publishes`: what stands at the places of the output after a run.
-/

set_option autoImplicit false

namespace Equijoin

open FileTree

variable {job : Job} {options : Options} {schedules : Schedules} {s : Session}

/-! ## Parts and tables -/

namespace Job.Worked

theorem partOf (w : job.Worked options schedules s) :
    w.parts.length = w.prepared.count ∧ ∀ (shard : Nat) (part : Part),
      w.parts[shard]? = some part → PartOf w.split.files w.joined.files
        (shardInputs w.prepared.datasets w.sets shard) w.dir shard part := by
  have hpermit : 0 < (w.split.admitting options).permits :=
    show 0 < max options.maxInFlight 1 by omega
  exact joining_values w.not_spelled (sets_fit w.sets_length
    (sharding_values w.not_spelled w.splits).2) hpermit w.joins

theorem indices (w : job.Worked options schedules s) :
    (w.parts.map Part.index).Pairwise (· ≤ ·) := by
  have hindex : ∀ (i : Nat) (hi : i < w.parts.length), w.parts[i].index = i := by
    intro i hi
    obtain ⟨table, text, -, -, hpart, -⟩ := w.partOf.2 i _ (List.getElem?_eq_getElem hi)
    rw [hpart]
  refine List.pairwise_iff_getElem.2 fun i j hi hj hij => ?_
  rw [List.length_map] at hi hj
  rw [List.getElem_map, List.getElem_map, hindex i hi, hindex j hj]
  omega

/-- The parts of a run hold the joined tables of its shards. -/
theorem stores (w : job.Worked options schedules s) :
    ∃ tables, w.Tables tables ∧ List.Forall₂ (Part.Stores w.joined.files) w.parts tables := by
  obtain ⟨hlength, hparts⟩ := w.partOf
  obtain ⟨tables, htables, hall⟩ := exists_list (R := fun shard part table =>
    JoinsTo w.split.files (shardInputs w.prepared.datasets w.sets shard) table ∧
      Part.Stores w.joined.files part table) fun shard part hpart => by
    obtain ⟨table, text, hjoin, htext, rfl, hread⟩ := hparts shard part hpart
    exact ⟨table, hjoin, rfl, rfl, text, htext, hread⟩
  refine ⟨tables, ⟨htables.trans hlength, fun shard table htable => ?_⟩,
    List.forall₂_iff_get.2 ⟨htables.symm, fun i hi hi' => ?_⟩⟩
  · obtain ⟨hi, -⟩ := List.getElem?_eq_some_iff.1 htable
    rw [htables] at hi
    exact (hall shard _ table (List.getElem?_eq_getElem hi) htable).1
  · exact (hall i _ _ (List.getElem?_eq_getElem hi) (List.getElem?_eq_getElem hi')).2

theorem check (w : job.Worked options schedules s) : job.check = .ok () := by
  obtain ⟨o, values, v, hopening, -⟩ := prepared_eq_ok w.prepares
  obtain ⟨⟨⟩, v₁, henter, h⟩ := Phase.bind_eq_ok.1 hopening
  obtain ⟨⟨⟩, v₂, hcheck, h⟩ := Phase.bind_eq_ok.1 h
  exact congrArg Prod.fst hcheck

theorem checked (w : job.Worked options schedules s) : job.Checked := Job.checked w.check

theorem merges (w : job.Worked options schedules s) :
    Schema.merge (w.prepared.datasets.map Dataset.schema) = .ok w.prepared.merged := by
  obtain ⟨o, values, v', -, -, -, -, hmerge, -⟩ := prepared_eq_ok w.prepares
  exact hmerge

/-- Promotion leaves as many types as names in every group. -/
theorem even (w : job.Worked options schedules s) :
    ∀ schema ∈ w.prepared.datasets.map Dataset.schema, schema.Even := by
  intro schema hschema
  obtain ⟨d', hd', rfl⟩ := List.mem_map.1 hschema
  obtain ⟨d, hd, c, delimiter, sheet, types, places, hprepared⟩ :=
    exists_left_of_forall₂ w.datasets_prepared hd'
  rw [hprepared.result]
  exact (w.checked.even d hd).promote c.promoted

theorem schemas_shardInputs (w : job.Worked options schedules s) (shard : Nat) :
    (shardInputs w.prepared.datasets w.sets shard).map ShardInput.schema =
      w.prepared.datasets.map Dataset.schema := by
  have hzip := List.map_fst_zip (Nat.le_of_eq w.sets_length.symm)
  conv => rhs; rw [← hzip]
  simp only [shardInputs, List.map_map]
  rfl

/-- The output of a run has a descriptor. -/
theorem reconciles (w : job.Worked options schedules s) {tables : List Table}
    (htables : w.Tables tables) {table : Table} (htable : table ∈ tables) :
    ∃ d, w.prepared.merged.reconcile table.columns = .ok d := by
  refine Schema.reconcile_ok fun name => ?_
  obtain ⟨shard, hshard⟩ := List.mem_iff_getElem?.1 htable
  rw [(htables.2 shard table hshard).mem_columns, Schema.mem_names_merge w.even w.merges,
    ← w.schemas_shardInputs shard]
  simp only [List.mem_map, exists_exists_and_eq_and]

end Job.Worked

/-! ## From the tasks to the run -/

/-- What a run reports once its output is published. -/
def Job.Prepared.report (p : Job.Prepared) (x : Assembled × Descriptor) : Report :=
  ⟨p.count, x.1.rows, x.2, p.coercions, Metrics.zero.snapshot⟩

/-- A run whose tasks succeed ends as its publication does. -/
theorem Job.Worked.stages_eq (w : job.Worked options schedules s)
    {r : Outcome (Assembled × Descriptor)} {v : Session}
    (h : emitOutput w.prepared.merged job.output w.parts w.joined = (r, v)) :
    job.stages options schedules (s.begin job) =
      (r.map w.prepared.report, v.withFiles (v.files.removeScratch w.dir)) := by
  have hbody : job.inScratch options schedules w.prepared w.dir (w.ready.withFiles w.files) =
      (r.map w.prepared.report, v) := by
    unfold Job.inScratch
    rw [Phase.bind_of_ok w.joinDatasets_eq]
    cases r with
    | ok x => exact Phase.bind_of_ok h
    | error fault => exact Phase.bind_of_error h
  rw [Job.stages_eq, Phase.bind_of_ok w.prepares]
  unfold Phase.withScratch
  rw [w.creates]
  dsimp only
  rw [hbody]

/-- Where a run stops some of whose tasks do not succeed, and the session that it leaves. -/
inductive Job.Stops (job : Job) (options : Options) (schedules : Schedules) (s : Session) :
    Fault → Session → Prop
  | early {fault : Fault} {v : Session}
    (h : job.prepared options schedules.coercion (s.begin job) = (.error fault, v)) :
    Stops job options schedules s fault v
  | scratch {p : Job.Prepared} {ready : Session} {fault : IoFault}
    (h : job.prepared options schedules.coercion (s.begin job) = (.ok p, ready))
    (hscratch : ready.files.createScratch options.scratchParent = .error fault) :
    Stops job options schedules s (.io fault) ready
  | sharding {p : Job.Prepared} {ready v : Session} {files : FileTree} {dir : Scratch}
    {fault : Fault} (h : job.prepared options schedules.coercion (s.begin job) = (.ok p, ready))
    (hscratch : ready.files.createScratch options.scratchParent = .ok (files, dir))
    (hsplit : fanOut schedules.sharding (shardingTasks p.count (.scratch dir) p.datasets)
      (ready.withFiles files) = (.error fault, v)) :
    Stops job options schedules s fault (v.withFiles (v.files.removeScratch dir))
  | joining {p : Job.Prepared} {ready split v : Session} {files : FileTree} {dir : Scratch}
    {sets : List ShardSet} {fault : Fault}
    (h : job.prepared options schedules.coercion (s.begin job) = (.ok p, ready))
    (hscratch : ready.files.createScratch options.scratchParent = .ok (files, dir))
    (hsplit : fanOut schedules.sharding (shardingTasks p.count (.scratch dir) p.datasets)
      (ready.withFiles files) = (.ok sets, split))
    (hjoin : fanOut schedules.joining
      (joiningTasks p.datasets sets (.scratch dir) schedules.waits p.count)
        (split.admitting options) = (.error fault, v)) :
    Stops job options schedules s fault (v.withFiles (v.files.removeScratch dir))

/-- A run some of whose tasks do not succeed stops there. -/
theorem stages_stop (h : IsEmpty (job.Worked options schedules s)) :
    ∃ fault v, job.stages options schedules (s.begin job) = (.error fault, v) ∧
      job.Stops options schedules s fault v := by
  rw [Job.stages_eq]
  rcases hp : job.prepared options schedules.coercion (s.begin job) with ⟨r, ready⟩
  cases r with
  | error fault => exact ⟨fault, ready, Phase.bind_of_error hp, .early hp⟩
  | ok p =>
    rw [Phase.bind_of_ok hp]
    unfold Phase.withScratch
    cases hscratch : ready.files.createScratch options.scratchParent with
    | error fault => exact ⟨.io fault, ready, rfl, .scratch hp hscratch⟩
    | ok x =>
      obtain ⟨files, dir⟩ := x
      have hjoins := joinDatasets_apply options schedules p.datasets p.count (.scratch dir)
        (ready.withFiles files)
      dsimp only
      unfold Job.inScratch
      rcases hsplit : fanOut schedules.sharding (shardingTasks p.count (.scratch dir) p.datasets)
        (ready.withFiles files) with ⟨r, split⟩
      rw [hsplit] at hjoins
      cases r with
      | error fault =>
        rw [Phase.bind_of_error hjoins]
        exact ⟨fault, _, rfl, .sharding hp hscratch hsplit⟩
      | ok sets =>
        dsimp only at hjoins
        rcases hjoin : fanOut schedules.joining
          (joiningTasks p.datasets sets (.scratch dir) schedules.waits p.count)
          (split.admitting options) with ⟨r, v⟩
        rw [hjoin] at hjoins
        cases r with
        | error fault =>
          rw [Phase.bind_of_error hjoins]
          exact ⟨fault, _, rfl, .joining hp hscratch hsplit hjoin⟩
        | ok parts =>
          exact h.elim ⟨p, ready, dir, files, sets, split, parts, v, hp, hscratch, hsplit, hjoin⟩

/-- Where a run stops, all files are as they were. -/
theorem Job.Stops.files {fault : Fault} {v : Session} (h : job.Stops options schedules s fault v) :
    Same s.files v.files := by
  have hready := reads_prepared job options schedules.coercion (s.begin job)
  have hsame : ∀ {p : Job.Prepared} {ready : Session} {files : FileTree} {dir : Scratch}
      {r : Outcome (List Part)} {v : Session},
      Same s.files ready.files →
      ready.files.createScratch options.scratchParent = .ok (files, dir) →
      joinDatasets options schedules p.datasets p.count (.scratch dir) (ready.withFiles files) =
        (r, v) → Same s.files (v.files.removeScratch dir) := by
    intro p ready files dir r v hready hscratch hjoins
    have hkeep := joinDatasets_keeps (scratch_not_spelled hscratch) options schedules p.datasets
      p.count (ready.withFiles files)
    rw [hjoins] at hkeep
    exact hready.trans (restores hscratch ((outside_createScratch hscratch).trans hkeep))
  cases h with
  | early h =>
    rw [h] at hready
    exact hready
  | scratch h =>
    rw [h] at hready
    exact hready
  | @sharding p ready _ files dir _ h hscratch hsplit =>
    have hjoins := joinDatasets_apply options schedules p.datasets p.count (.scratch dir)
      (ready.withFiles files)
    rw [h] at hready
    rw [hsplit] at hjoins
    exact hsame hready hscratch hjoins
  | @joining p ready _ _ files dir _ _ h hscratch hsplit hjoin =>
    have hjoins := joinDatasets_apply options schedules p.datasets p.count (.scratch dir)
      (ready.withFiles files)
    rw [h] at hready
    rw [hsplit] at hjoins
    exact hsame hready hscratch (hjoins.trans hjoin)

/-- A run whose tasks do not succeed leaves all files as they were. -/
theorem stages_unworked (h : IsEmpty (job.Worked options schedules s)) :
    ∃ fault v, job.stages options schedules (s.begin job) = (.error fault, v) ∧
      Same s.files v.files := by
  obtain ⟨fault, v, hstages, hstops⟩ := stages_stop h
  exact ⟨fault, v, hstages, hstops.files⟩

theorem emitOutput_of_error (merged : Schema) {output : Output} {parts : List Part} {u : Session}
    {fault : Fault} {files : FileTree}
    (h : assembleParts parts output.dataPath u.files = (.error fault, files)) :
    ∃ v, emitOutput merged output parts u = (.error fault, v) ∧ v.files = files := by
  have henter : Phase.enter .assembly u = (.ok (), u.enter .assembly) := rfl
  have hassemble : Phase.onFiles (assembleParts parts output.dataPath) (u.enter .assembly) =
      (.error fault, (u.enter .assembly).withFiles files) := by
    unfold Phase.onFiles
    rw [show (u.enter .assembly).files = u.files from rfl, h]
  refine ⟨(u.enter .assembly).withFiles files, ?_, rfl⟩
  unfold emitOutput
  rw [Phase.bind_of_ok henter]
  exact Phase.bind_of_error hassemble

theorem emitOutput_of_ok {merged : Schema} {output : Output} {parts : List Part} {u : Session}
    {a : Assembled} {files files' : FileTree} {r : Outcome Descriptor}
    (h : assembleParts parts output.dataPath u.files = (.ok a, files))
    (hp : publishOutput merged output a files = (r, files')) :
    ∃ v, emitOutput merged output parts u = (r.map fun d => (a, d), v) ∧ v.files = files' := by
  have henter : Phase.enter .assembly u = (.ok (), u.enter .assembly) := rfl
  have hassemble : Phase.onFiles (assembleParts parts output.dataPath) (u.enter .assembly) =
      (.ok a, (u.enter .assembly).withFiles files) := by
    unfold Phase.onFiles
    rw [show (u.enter .assembly).files = u.files from rfl, h]
  -- the session in which both files are published
  let v := ((u.enter .assembly).withFiles files).emit (.assembled a.rows output.dataPath)
  let x := v.enter .schemaEmit
  have hemit : Phase.emit (.assembled a.rows output.dataPath)
      ((u.enter .assembly).withFiles files) = (.ok (), v) := rfl
  have hnext : Phase.enter .schemaEmit v = (.ok (), x) := rfl
  have hpublish : Phase.onFiles (publishOutput merged output a) x = (r, x.withFiles files') := by
    unfold Phase.onFiles
    rw [show x.files = files from rfl, hp]
  unfold emitOutput
  rw [Phase.bind_of_ok henter, Phase.bind_of_ok hassemble, Phase.bind_of_ok hemit,
    Phase.bind_of_ok hnext]
  cases r with
  | error fault => exact ⟨x.withFiles files', Phase.bind_of_error hpublish, rfl⟩
  | ok d => exact ⟨(x.withFiles files').enter .done, Phase.bind_of_ok hpublish, rfl⟩

/-! ## The files of a run -/

/-- The text of tables can be staged as an output: they all have the given columns. -/
structure Stageable (t : FileTree) (output : Output) (columns : List String)
    (tables : List Table) : Prop where
  place : ∃ l, t.stagingPlace output.dataPath = .ok l
  nonempty : tables ≠ []
  alike : ∀ table ∈ tables, table.columns = columns

theorem removeScratch_put {t : FileTree} {dir : Scratch} {l : Location} (h : dir.Outside l)
    (n : Node) : Same ((t.removeScratch dir).put l n) ((t.put l n).removeScratch dir) := by
  refine ⟨rfl, fun k _ => ?_⟩
  rw [nodeAt?_put, removeScratch, removeScratch, nodeAt?_eraseBelow, nodeAt?_eraseBelow,
    nodeAt?_put]
  by_cases hk : k = l
  · subst hk
    rw [if_pos rfl, if_pos rfl, if_neg]
    exact fun hbelow => h (List.isPrefixOf_iff_prefix.1 hbelow)
  · rw [if_neg hk, if_neg hk]

namespace Job.Worked

theorem agrees (w : job.Worked options schedules s) :
    AgreeOn Location.Spelled s.files w.joined.files :=
  (w.same_ready.mono fun _ _ => trivial).trans
    (w.outside.mono (outside_of_spelled w.not_spelled))

theorem stagingPlace_iff (w : job.Worked options schedules s) (path : String) :
    (∃ l, w.joined.files.stagingPlace path = .ok l) ↔ ∃ l, s.files.stagingPlace path = .ok l :=
  ⟨fun ⟨_, h⟩ => w.agrees.symm.keeps.freshPlace w.agrees.1.symm h,
    fun ⟨_, h⟩ => w.agrees.keeps.freshPlace w.agrees.1 h⟩

theorem publishable_iff (w : job.Worked options schedules s) (output : Output) (data : Location) :
    Publishable w.joined.files output data ↔ Publishable s.files output data := by
  constructor
  · rintro ⟨hplace, hstaged⟩
    rw [← w.agrees.destination] at hplace
    exact ⟨hplace, (w.stagingPlace_iff _).1 hstaged⟩
  · rintro ⟨hplace, hstaged⟩
    rw [w.agrees.destination] at hplace
    exact ⟨hplace, (w.stagingPlace_iff _).2 hstaged⟩

theorem leaves (w : job.Worked options schedules s) {u : FileTree}
    (h : Same w.joined.files u) : Same s.files (u.removeScratch w.dir) :=
  w.same_ready.trans (restores w.creates (w.outside.trans (h.mono fun _ _ => trivial)))

theorem leaves_put (w : job.Worked options schedules s) {t u v : FileTree} {l : Location}
    {n : Node} (hl : l.Spelled) (hu : Same t (u.removeScratch w.dir)) (h : Same (u.put l n) v) :
    Same (t.put l n) (v.removeScratch w.dir) :=
  ((hu.put l n).trans (removeScratch_put (outside_of_spelled w.not_spelled l hl) n)).trans
    (h.eraseBelow _)

theorem Tables.unique {w : job.Worked options schedules s} {tables tables' : List Table}
    (h : w.Tables tables) (h' : w.Tables tables') : tables = tables' := by
  refine List.ext_getElem (by rw [h.1, h'.1]) fun i hi hi' => ?_
  exact (h.2 i _ (List.getElem?_eq_getElem hi)).unique (h'.2 i _ (List.getElem?_eq_getElem hi'))

/-- A run whose tasks succeed publishes the text of its tables and their descriptor, or fails and
leaves all as it was, or publishes the former only. -/
theorem ends (w : job.Worked options schedules s) {tables : List Table} (htables : w.Tables tables) :
    (∃ fault v, job.stages options schedules (s.begin job) = (.error fault, v) ∧
      Same s.files v.files ∧ ∀ columns, Stageable s.files job.output columns tables →
        ∀ data, ¬ Publishable s.files job.output data) ∨
    (∃ fault v columns data, job.stages options schedules (s.begin job) = (.error fault, v) ∧
      Stageable s.files job.output columns tables ∧ Publishable s.files job.output data ∧
      (∀ l, s.files.destination job.output.schemaPath ≠ .ok l) ∧
      Same (s.files.put data (.file (outputText columns tables))) v.files) ∨
    ∃ v columns data schema d, job.stages options schedules (s.begin job) =
        (.ok ⟨w.prepared.count, rowsOf tables, d, w.prepared.coercions, Metrics.zero.snapshot⟩, v) ∧
      Stageable s.files job.output columns tables ∧ Publishable s.files job.output data ∧
      s.files.destination job.output.schemaPath = .ok schema ∧
      w.prepared.merged.reconcile columns = .ok d ∧
      Same ((s.files.put data (.file (outputText columns tables))).put schema
        (.file (Utf8.encode d.write))) v.files := by
  have hbefore := w.leaves (AgreeOn.refl _ _)
  obtain ⟨tables', htables', hstores⟩ := w.stores
  obtain rfl := Tables.unique htables htables'
  rcases ha : assembleParts w.parts job.output.dataPath w.joined.files with ⟨r, files⟩
  cases r with
  | error fault =>
    obtain ⟨v, hemit, hv⟩ := emitOutput_of_error w.prepared.merged ha
    refine .inl ⟨fault, _, w.stages_eq hemit, ?_, fun columns hstageable data _ => ?_⟩
    · show Same s.files (v.files.removeScratch w.dir)
      rw [hv, assembleParts_error ha]
      exact hbefore
    · obtain ⟨l, hl⟩ := (w.stagingPlace_iff _).2 hstageable.place
      have hok := (assembleParts_eq_ok w.indices hstores (a := ⟨columns, rowsOf tables, l⟩)).2
        ⟨hl, hstageable.nonempty, hstageable.alike, rfl, rfl⟩
      rw [ha] at hok
      cases hok
  | ok a =>
    obtain ⟨hplace, hnonempty, halike, hrows, rfl⟩ := (assembleParts_eq_ok w.indices hstores).1 ha
    have hstageable : Stageable s.files job.output a.columns tables :=
      ⟨(w.stagingPlace_iff _).1 ⟨_, hplace⟩, hnonempty, halike⟩
    obtain ⟨table, htable⟩ := List.exists_mem_of_ne_nil _ hnonempty
    obtain ⟨d, hd⟩ := w.reconciles htables htable
    rw [halike table htable] at hd
    have hagree := w.agrees.destination job.output.schemaPath
    rcases publishOutput_cases job.output
      ((new_stagingPlace hplace).stages (outputText a.columns tables)) hd with
      ⟨fault, f, hp, hnot, hf⟩ | ⟨fault, f, data, hp, hpub, hnot, hf⟩ |
        ⟨f, data, schema, hp, hpub, hschema, hf⟩
    · obtain ⟨v, hemit, rfl⟩ := emitOutput_of_ok ha hp
      refine .inl ⟨fault, _, w.stages_eq hemit, w.leaves hf, fun columns _ data hdata => ?_⟩
      exact hnot data ((w.publishable_iff _ _).2 hdata)
    · obtain ⟨v, hemit, rfl⟩ := emitOutput_of_ok ha hp
      have hpub' := (w.publishable_iff _ _).1 hpub
      refine .inr (.inl ⟨fault, _, a.columns, data, w.stages_eq hemit, hstageable, hpub',
        fun l hl => hnot l (hagree ▸ hl), ?_⟩)
      exact w.leaves_put (spelled_destination hpub'.place) hbefore hf
    · obtain ⟨v, hemit, rfl⟩ := emitOutput_of_ok ha hp
      have hpub' := (w.publishable_iff _ _).1 hpub
      refine .inr (.inr ⟨v.withFiles (v.files.removeScratch w.dir), a.columns, data, schema, d, ?_,
        hstageable, hpub', hagree.trans hschema, hd, ?_⟩)
      · rw [w.stages_eq hemit]
        simp only [Except.map, Prepared.report, hrows]
      · have hdata := w.leaves_put (spelled_destination hpub'.place) hbefore
          (AgreeOn.refl _ (w.joined.files.put data (.file (outputText a.columns tables))))
        exact w.leaves_put (spelled_destination hschema) hdata hf

end Job.Worked

theorem reads_published {t v : FileTree} {path path' : String} {data schema : Location}
    {c c' : Bytes} (hdiff : t.destination path' ≠ .ok data) (hdata : t.destination path = .ok data)
    (hschema : t.destination path' = .ok schema)
    (hv : Same ((t.put data (.file c)).put schema (.file c')) v) :
    v.read path = .ok c ∧ v.read path' = .ok c' := by
  have hne : data ≠ schema := fun h => hdiff (h ▸ hschema)
  have hfirst : Keeps t (t.put data (.file c)) := keeps_put_file c (node?_destination hdata)
  have hschema' := (destination_put_data c hdata schema).2 hschema
  have hkeeps : Keeps t v := (hfirst.trans (keeps_put_file c' (node?_destination hschema'))).trans
    (hv.mono fun _ _ => trivial : AgreeOn Location.Spelled _ v).keeps
  refine ⟨read_of_destination hkeeps hdata ?_, read_of_destination hkeeps hschema ?_⟩
  · rw [← hv.2 data trivial, nodeAt?_put, if_neg hne, nodeAt?_put, if_pos rfl]
  · rw [← hv.2 schema trivial, nodeAt?_put, if_pos rfl]

/-- An output is read as it was published, if its descriptor has another place. -/
theorem read_published {t v : FileTree} {path path' : String} {data schema : Location}
    {c c' : Bytes} (hne : schema ≠ data) (hdata : t.destination path = .ok data)
    (hschema : t.destination path' = .ok schema)
    (hv : Same ((t.put data (.file c)).put schema (.file c')) v) : v.read path = .ok c := by
  refine (reads_published ?_ hdata hschema hv).1
  rw [hschema]
  exact fun h => hne (Except.ok.inj h)

/-- A run comes to publishing its output: the tables of its shards can be staged. The output can
take its place and its descriptor can be staged, but cannot take its place. -/
structure Job.Halfway (job : Job) (options : Options) (schedules : Schedules) (s : Session)
    (columns : List String) (tables : List Table) (data : Location) : Prop where
  works : ∃ w : job.Worked options schedules s, w.Tables tables
  stageable : Stageable s.files job.output columns tables
  publishable : Publishable s.files job.output data
  blocked : ∀ l, s.files.destination job.output.schemaPath ≠ .ok l

/-- A run that succeeds has put its output and the descriptor in their places. -/
theorem published_of_ok {elapsed : Duration} {report : Report}
    (hreport : (job.run options schedules elapsed s).1 = .ok report) :
    ∃ (w : job.Worked options schedules s) (tables : List Table) (columns : List String)
      (data schema : Location), w.Tables tables ∧ tables.length = report.shardCount ∧
      Stageable s.files job.output columns tables ∧ rowsOf tables = report.outputRows ∧
      w.prepared.merged.reconcile columns = .ok report.descriptor ∧
      s.files.destination job.output.dataPath = .ok data ∧
      s.files.destination job.output.schemaPath = .ok schema ∧
      Same ((s.files.put data (.file (outputText columns tables))).put schema
        (.file (Utf8.encode report.descriptor.write)))
        (job.run options schedules elapsed s).2.files := by
  rw [run_eq] at hreport ⊢
  rw [conclude_files]
  obtain ⟨metrics, hok⟩ := conclude_ok hreport
  by_cases hworked : IsEmpty (job.Worked options schedules s)
  · obtain ⟨fault, v, hstages, -⟩ := stages_unworked hworked
    rw [hstages] at hok
    cases hok
  · obtain ⟨w⟩ := not_isEmpty_iff.1 hworked
    obtain ⟨tables, htables, -⟩ := w.stores
    rcases w.ends htables with ⟨fault, v, hstages, -⟩ | ⟨fault, v, columns, data, hstages, -⟩ |
      ⟨v, columns, data, schema, d, hstages, hstageable, hpub, hschema, hd, hv⟩
    · rw [hstages] at hok
      cases hok
    · rw [hstages] at hok
      cases hok
    · rw [hstages] at hok ⊢
      have hreport := Except.ok.inj hok
      have hcount : w.prepared.count = report.shardCount := congrArg Report.shardCount hreport
      have hrows : rowsOf tables = report.outputRows := congrArg Report.outputRows hreport
      have hdescriptor : d = report.descriptor := congrArg Report.descriptor hreport
      exact ⟨w, tables, columns, data, schema, htables, htables.1.trans hcount, hstageable, hrows,
        hdescriptor ▸ hd, hpub.place, hschema, hdescriptor ▸ hv⟩

/-- A run that succeeds leaves both files complete, if these have different places. -/
theorem files_of_ok {elapsed : Duration} {report : Report}
    (hdiff : ∀ l, s.files.destination job.output.dataPath = .ok l →
      s.files.destination job.output.schemaPath ≠ .ok l)
    (hreport : (job.run options schedules elapsed s).1 = .ok report) :
    ∃ (w : job.Worked options schedules s) (tables : List Table) (columns : List String),
      w.Tables tables ∧ tables.length = report.shardCount ∧
      (∀ table ∈ tables, table.columns = columns) ∧ rowsOf tables = report.outputRows ∧
      w.prepared.merged.reconcile columns = .ok report.descriptor ∧
      (job.run options schedules elapsed s).2.files.read job.output.dataPath =
        .ok (outputText columns tables) ∧
      (job.run options schedules elapsed s).2.files.read job.output.schemaPath =
        .ok (Utf8.encode report.descriptor.write) := by
  obtain ⟨w, tables, columns, data, schema, htables, hcount, hstageable, hrows, hd, hdata, hschema,
    hfiles⟩ := published_of_ok hreport
  obtain ⟨hread, hread'⟩ := reads_published (hdiff data hdata) hdata hschema hfiles
  exact ⟨w, tables, columns, htables, hcount, hstageable.alike, hrows, hd, hread, hread'⟩

/-- A run that fails leaves all files as they were, unless it ends halfway. -/
theorem files_of_error {elapsed : Duration} {fault : Fault}
    (hfault : (job.run options schedules elapsed s).1 = .error fault)
    (hnot : ∀ columns tables data, ¬ job.Halfway options schedules s columns tables data) :
    Same s.files (job.run options schedules elapsed s).2.files := by
  rw [run_eq] at hfault ⊢
  rw [conclude_files]
  replace hfault := (conclude_error elapsed).1 hfault
  by_cases hworked : IsEmpty (job.Worked options schedules s)
  · obtain ⟨fault', v, hstages, hv⟩ := stages_unworked hworked
    rw [hstages]
    exact hv
  · obtain ⟨w⟩ := not_isEmpty_iff.1 hworked
    obtain ⟨tables, htables, -⟩ := w.stores
    rcases w.ends htables with ⟨fault', v, hstages, hv, -⟩ |
      ⟨fault', v, columns, data, hstages, hstageable, hpub, hblocked, -⟩ |
        ⟨v, columns, data, schema, d, hstages, -⟩
    · rw [hstages]
      exact hv
    · exact absurd ⟨⟨w, htables⟩, hstageable, hpub, hblocked⟩ (hnot columns tables data)
    · rw [hstages] at hfault
      cases hfault

/-- A run that ends halfway fails, and leaves the complete output at its place. -/
theorem Job.Halfway.fails {columns : List String} {tables : List Table} {data : Location}
    (h : job.Halfway options schedules s columns tables data) (elapsed : Duration) :
    (∃ fault, (job.run options schedules elapsed s).1 = .error fault) ∧
      Same (s.files.put data (.file (outputText columns tables)))
        (job.run options schedules elapsed s).2.files := by
  rw [run_eq, conclude_files]
  obtain ⟨w, htables⟩ := h.works
  rcases w.ends htables with ⟨fault, v, -, -, hnot⟩ |
    ⟨fault, v, columns', data', hstages, hstageable, hpub, -, hv⟩ |
      ⟨v, columns', data', schema, d, -, -, -, hschema, -⟩
  · exact absurd h.publishable (hnot columns h.stageable data)
  · rw [hstages]
    refine ⟨⟨fault, (conclude_error elapsed).2 rfl⟩, ?_⟩
    obtain ⟨table, htable⟩ := List.exists_mem_of_ne_nil _ hstageable.nonempty
    have hcolumns : columns = columns' :=
      (h.stageable.alike table htable).symm.trans (hstageable.alike table htable)
    have hdata : data = data' := Except.ok.inj (h.publishable.place.symm.trans hpub.place)
    rw [hcolumns, hdata]
    exact hv
  · exact absurd hschema (h.blocked schema)

/-- A run whose output and descriptor have different places leaves both files complete if it
succeeds. If it fails, it leaves all files as they were, except exactly when it comes to publishing
an output whose descriptor cannot take its place: then the complete output stands at its place, and
all else is as before. -/
theorem run_publishes (job : Job) (options : Options) (schedules : Schedules) (elapsed : Duration)
    (s : Session) (hdiff : ∀ l, s.files.destination job.output.dataPath = .ok l →
      s.files.destination job.output.schemaPath ≠ .ok l) :
    (∀ report, (job.run options schedules elapsed s).1 = .ok report →
      ∃ (w : job.Worked options schedules s) (tables : List Table) (columns : List String),
        w.Tables tables ∧ tables.length = report.shardCount ∧
        (∀ table ∈ tables, table.columns = columns) ∧ rowsOf tables = report.outputRows ∧
        w.prepared.merged.reconcile columns = .ok report.descriptor ∧
        (job.run options schedules elapsed s).2.files.read job.output.dataPath =
          .ok (outputText columns tables) ∧
        (job.run options schedules elapsed s).2.files.read job.output.schemaPath =
          .ok (Utf8.encode report.descriptor.write)) ∧
    (∀ fault, (job.run options schedules elapsed s).1 = .error fault →
      (∀ columns tables data, ¬ job.Halfway options schedules s columns tables data) →
        Same s.files (job.run options schedules elapsed s).2.files) ∧
    ∀ columns tables data, job.Halfway options schedules s columns tables data →
      (∃ fault, (job.run options schedules elapsed s).1 = .error fault) ∧
        Same (s.files.put data (.file (outputText columns tables)))
          (job.run options schedules elapsed s).2.files := by
  refine ⟨fun report hreport => ?_, fun fault hfault hnot => ?_, fun columns tables data h => ?_⟩
  · exact files_of_ok hdiff hreport
  · exact files_of_error hfault hnot
  · exact h.fails elapsed

/-! ## A descriptor that cannot take its place -/

/-- Identifiers beside a feature, all integers. -/
def pairSchema (id feature : String) : Schema := ⟨[id], [feature], [], [.int64], [.int64], []⟩

/-- Two inputs are joined by their identifiers. -/
def pairJob : Job where
  datasets := [⟨"a.csv", pairSchema "id" "x", ["id"], some Delimiter.comma⟩,
    ⟨"b.csv", pairSchema "id" "y", ["id"], some Delimiter.comma⟩]
  output := ⟨"out.csv", "out.json"⟩

/-- The inputs have no rows, and a directory stands at the place of the descriptor. -/
def blockedFiles : FileTree :=
  ((FileTree.empty.put [.given "a.csv"] (.file (Utf8.encode "id,x\n"))).put
    [.given "b.csv"] (.file (Utf8.encode "id,y\n"))).put [.given "out.json"] .directory

/-- One shard. -/
def oneShard : Options := ⟨Options.defaultShardSizeLimit, some 1, none, 1, none⟩

/-- The run of such a job fails halfway, and the output stands at its place. -/
theorem run_publishes_blocked :
    (∀ l, blockedFiles.destination pairJob.output.dataPath = .ok l →
      blockedFiles.destination pairJob.output.schemaPath ≠ .ok l) ∧
    (∃ fault, (pairJob.run oneShard .sequential .zero (.ofFiles blockedFiles)).1 = .error fault) ∧
    (∃ columns tables data,
      pairJob.Halfway oneShard .sequential (.ofFiles blockedFiles) columns tables data) ∧
    blockedFiles.nodeAt? [.given "out.csv"] = none ∧
    (pairJob.run oneShard .sequential .zero (.ofFiles blockedFiles)).2.files.nodeAt?
      [.given "out.csv"] = some (.file (Utf8.encode "id,x,y\n")) := by
  have hblocked : blockedFiles.destination pairJob.output.schemaPath = .error .isADirectory := by
    decide
  have hdiff : ∀ l, blockedFiles.destination pairJob.output.dataPath = .ok l →
      blockedFiles.destination pairJob.output.schemaPath ≠ .ok l := by
    intro l _ h
    rw [hblocked] at h
    cases h
  have herror : (pairJob.run oneShard .sequential .zero (.ofFiles blockedFiles)).1 =
      .error (.io .isADirectory) := by
    decide +kernel
  have hbefore : blockedFiles.nodeAt? [.given "out.csv"] = none := by
    decide
  have hafter : (pairJob.run oneShard .sequential .zero (.ofFiles blockedFiles)).2.files.nodeAt?
      [.given "out.csv"] = some (.file (Utf8.encode "id,x,y\n")) := by
    decide +kernel
  refine ⟨hdiff, ⟨_, herror⟩, ?_, hbefore, hafter⟩
  by_contra hnot
  have hsame := (run_publishes pairJob oneShard .sequential .zero (.ofFiles blockedFiles)
    hdiff).2.1 _ herror fun columns tables data h => hnot ⟨columns, tables, data, h⟩
  have hnode : blockedFiles.nodeAt? [.given "out.csv"] = _ := hsame.2 [.given "out.csv"] trivial
  rw [hbefore, hafter] at hnode
  cases hnode

end Equijoin
