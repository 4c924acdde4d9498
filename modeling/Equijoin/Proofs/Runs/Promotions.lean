import Equijoin.Proofs.Runs.Matches
import Equijoin.Proofs.Tables.Promotion

/-! # What coercion leaves of the inputs

Coercion looks at one dataset at a time. It succeeds on every dataset that can be loaded, but the
schemas that it leaves may be in conflict with each other, or with the files.

* `Dataset.delimiterIn`, `Dataset.LoadsIn`: a dataset can be loaded as its schema declares it.
* `Dataset.Promotes`: the columns that coercion makes floats of.
* `Dataset.prepares`: coercion of a dataset that can be loaded.
* `coercion_outcome`: when the coerced schemas can be merged, and the files loaded under them.
* `coercion_outcome_conflicts`: inputs of which this does not hold.
-/

set_option autoImplicit false

namespace Equijoin

variable {files : FileTree} {d : Dataset} {delimiter : UInt8} {sheet : Csv.Sheet} {name : String}

/-! ## One dataset -/

/-- The delimiter with which the file of a dataset is read. -/
def Dataset.delimiterIn (files : FileTree) (d : Dataset) : Outcome UInt8 :=
  match d.delimiter with
  | some delimiter => .ok delimiter
  | none => (Delimiter.sniff files d.path).map fun found => found.getD Delimiter.comma

/-- The file of the dataset can be loaded under its schema. -/
def Dataset.LoadsIn (files : FileTree) (d : Dataset) : Prop :=
  ∃ delimiter table, d.delimiterIn files = .ok delimiter ∧
    Table.load files d.path delimiter d.schema = .ok table

/-- The name is one of a key column of text, the first column of which holds nothing but numbers and
blanks. -/
def Dataset.Promotes (files : FileTree) (d : Dataset) (name : String) : Prop :=
  name ∈ d.key ∧ (d.schema.lookup name).map Declaration.type = some .text ∧
    ∃ delimiter sheet i, d.delimiterIn files = .ok delimiter ∧
      files.readSheet d.path delimiter = .ok sheet ∧ sheet.header.idxOf? name = some i ∧
        sheet.numericAt i = true

/-- All columns of a promoted name hold nothing but numbers and blanks. -/
def Dataset.Consistent (files : FileTree) (d : Dataset) : Prop :=
  ∀ delimiter sheet, d.delimiterIn files = .ok delimiter →
    files.readSheet d.path delimiter = .ok sheet →
      ∀ (i : Nat) (name : String), sheet.header[i]? = some name → d.Promotes files name →
        sheet.numericAt i = true

/-- Of the columns that both datasets declare, both promote the same, and the second declares each of
them once. -/
def Dataset.PromotesAlike (files : FileTree) (d e : Dataset) : Prop :=
  ∀ name ∈ d.schema.names, name ∈ e.schema.names →
    (d.Promotes files name ↔ e.Promotes files name) ∧
      (e.Promotes files name → e.schema.names.count name = 1)

theorem alone_findDelimiter (h : d.delimiterIn files = .ok delimiter) :
    d.findDelimiter.alone false files = some (.ok delimiter, files) := by
  unfold Dataset.delimiterIn at h
  unfold Dataset.findDelimiter
  cases hd : d.delimiter with
  | some b =>
    rw [hd] at h
    cases h
    rfl
  | none =>
    rw [hd] at h
    obtain ⟨found, hfound, rfl⟩ := map_eq_ok.1 h
    show (Task.done (Delimiter.sniff files d.path) >>= fun found =>
      Task.succeed (found.getD Delimiter.comma)).alone false files = _
    rw [hfound]
    rfl

theorem alone_scanRecords (files : FileTree) (rows : Nat) (cs : List Candidate)
    {records : List (Except Csv.Fault (List String))}
    (h : ∀ record ∈ records, ∃ cells, record = .ok cells) :
    ∃ c, (scanRecords rows cs records).alone false files = some (.ok c, files) := by
  induction records generalizing rows cs with
  | nil =>
    rw [scanRecords]
    exact ⟨_, rfl⟩
  | cons record records ih =>
    cases cs with
    | nil =>
      rw [scanRecords]
      exact ⟨_, rfl⟩
    | cons c cs =>
      obtain ⟨cells, rfl⟩ := h record (by simp)
      rw [scanRecords]
      exact ih _ _ fun r hr => h r (by simp [hr])

/-- Coercion of a dataset that can be loaded succeeds. -/
theorem Dataset.prepares {table : Table} (hdelimiter : d.delimiterIn files = .ok delimiter)
    (hload : Table.load files d.path delimiter d.schema = .ok table)
    (hdeclared : ∀ name ∈ d.key, name ∈ d.schema.names) :
    ∃ c, d.PreparesTo files
      ({ d with delimiter := some delimiter, schema := d.schema.promote c.promoted }, c) := by
  obtain ⟨sheet, types, places, hopen, -, -, -, hrows⟩ := opened_of_load hdeclared hload
  obtain ⟨c, hc⟩ := alone_scanRecords files 0 (candidates types places d.key)
    fun record hrecord => by
      obtain ⟨row, -, cells, hcells, -⟩ := exists_right_of_forall₂ hrows hrecord
      exact ⟨cells, hcells⟩
  have hcoercion : ({ d with delimiter := some delimiter }.coercion delimiter).alone false files =
      some (.ok c, files) := by
    show ((Task.done (files.readSheet d.path delimiter)).bind fun sheet =>
      (Task.done (d.schema.resolveSheet sheet)).bind fun types =>
        (Task.done ((positions sheet.header d.key).mapError Fault.schema)).bind fun places =>
          scanRecords 0 (candidates types places d.key) sheet.records).alone false files = _
    rw [hopen.read, Task.done_ok_bind, Schema.resolveSheet, hopen.resolves]
    show ((Task.done ((positions sheet.header d.key).mapError Fault.schema)).bind fun places =>
      scanRecords 0 (candidates types places d.key) sheet.records).alone false files = _
    rw [hopen.placed]
    exact hc
  refine ⟨c, ?_⟩
  unfold Dataset.PreparesTo Dataset.prepare
  rw [Task.bind_eq, Task.alone_bind (alone_findDelimiter hdelimiter)]
  unfold Dataset.coerce
  rw [Task.bind_eq, Task.alone_bind hcoercion]
  rfl

/-- What a dataset that can be loaded is prepared to. -/
structure Dataset.PromotedTo (files : FileTree) (d : Dataset) (value : Dataset × Coercion) :
    Prop where
  prepares : d.PreparesTo files value
  path : value.1.path = d.path
  key : value.1.key = d.key
  schema : value.1.schema = d.schema.promote value.2.promoted
  delimiter : value.1.delimiterIn files = d.delimiterIn files
  promoted : ∀ name, name ∈ value.2.promoted ↔ d.Promotes files name

theorem Dataset.LoadsIn.promotedTo (h : d.LoadsIn files)
    (hdeclared : ∀ name ∈ d.key, name ∈ d.schema.names) : ∃ value, d.PromotedTo files value := by
  obtain ⟨delimiter, table, hdelimiter, hload⟩ := h
  obtain ⟨c, hc⟩ := d.prepares hdelimiter hload hdeclared
  refine ⟨_, hc, rfl, rfl, rfl, hdelimiter.symm, fun name => ?_⟩
  obtain ⟨b, sheet, types, places, hprepared⟩ := hc.prepared
  obtain rfl : delimiter = b := by
    have hresult := congrArg Dataset.delimiter hprepared.result
    exact Option.some.inj hresult
  have hscanned := hprepared.scanned
  constructor
  · intro hname
    obtain ⟨candidate, hcandidate, rfl⟩ := List.mem_map.1 (hscanned.promotes ▸ hname)
    obtain ⟨hzip, htype⟩ := mem_candidates.1 (List.mem_filter.1 hcandidate).1
    have htext := (hscanned.type hzip).symm.trans htype
    exact ⟨(List.of_mem_zip hzip).2, htext, delimiter, sheet, _, hdelimiter, hscanned.read,
      hscanned.place hzip, (hscanned.mem_promoted hzip htext).1 hname⟩
  · rintro ⟨hkey, htext, b, sheet', i, hb, hread, hplace, hnumeric⟩
    cases hdelimiter.symm.trans hb
    cases hread.symm.trans hscanned.read
    obtain ⟨k, hk⟩ := List.mem_iff_getElem?.1 hkey
    obtain ⟨j, hj, hidx⟩ := getElem?_of_forall₂ (positions_eq_ok.1 hscanned.placed) hk
    cases hplace.symm.trans hidx
    have hzip : (i, name) ∈ places.zip d.key :=
      List.mem_of_getElem? (List.getElem?_zip_eq_some.2 ⟨hj, hk⟩)
    exact (hscanned.mem_promoted hzip htext).2 hnumeric

namespace Dataset.PromotedTo

variable {value : Dataset × Coercion}

theorem allText (h : d.PromotedTo files value) : d.schema.AllText value.2.promoted :=
  fun n hn => ((h.promoted n).1 hn).2.1

/-- A dataset can still be loaded if all columns of a promoted name hold nothing but numbers. -/
theorem loadsIn_iff (h : d.PromotedTo files value) (heven : d.schema.Even) (hload : d.LoadsIn files) :
    value.1.LoadsIn files ↔ d.Consistent files := by
  obtain ⟨delimiter, table, hdelimiter, hload⟩ := hload
  obtain ⟨sheet, hread, -⟩ := Table.load_eq_ok.1 hload
  have hiff := Table.load_promote_iff heven h.allText.declared hload hread
  unfold Dataset.LoadsIn Dataset.Consistent
  rw [h.delimiter, h.path, h.schema, hdelimiter]
  constructor
  · rintro ⟨b, promoted, hb, hpromoted⟩ b' sheet' hb' hread' i name hname hpromotes
    cases hb
    cases hb'
    cases hread.symm.trans hread'
    exact hiff.1 ⟨promoted, hpromoted⟩ i name hname ((h.promoted name).2 hpromotes)
  · intro hconsistent
    obtain ⟨promoted, hpromoted⟩ := hiff.2 fun i name hname hmem =>
      hconsistent delimiter sheet rfl hread i name hname ((h.promoted name).1 hmem)
    exact ⟨delimiter, promoted, rfl, hpromoted⟩

end Dataset.PromotedTo

/-! ## All datasets -/

theorem accepts_iff_promotesAlike {d e : Dataset} {value value' : Dataset × Coercion}
    (h : d.PromotedTo files value) (h' : e.PromotedTo files value') (heven : d.schema.Even)
    (heven' : e.schema.Even) (haccepts : d.schema.Accepts e.schema) :
    value.1.schema.Accepts value'.1.schema ↔ d.PromotesAlike files e := by
  rw [h.schema, h'.schema,
    Schema.accepts_promote_iff heven heven' haccepts h.allText h'.allText]
  simp only [h.promoted, h'.promoted, Dataset.PromotesAlike]

theorem pairwise_iff_of_forall₂ {α β : Type} {P : α → β → Prop} {R : α → α → Prop}
    {S : β → β → Prop} {xs : List α} {ys : List β} (h : List.Forall₂ P xs ys)
    (hiff : xs.Pairwise fun x x' => ∀ y y', P x y → P x' y' → (R x x' ↔ S y y')) :
    xs.Pairwise R ↔ ys.Pairwise S := by
  induction h with
  | nil => exact iff_of_true .nil .nil
  | @cons x y xs ys hxy hrest ih =>
    obtain ⟨hfirst, hpairs⟩ := List.pairwise_cons.1 hiff
    rw [List.pairwise_cons, List.pairwise_cons, ih hpairs]
    refine and_congr_left fun _ => ?_
    constructor
    · intro hall y' hy'
      obtain ⟨x', hx', hxy'⟩ := exists_left_of_forall₂ hrest hy'
      exact (hfirst x' hx' y y' hxy hxy').1 (hall x' hx')
    · intro hall x' hx'
      obtain ⟨y', hy', hxy'⟩ := exists_right_of_forall₂ hrest hx'
      exact (hfirst x' hx' y y' hxy hxy').2 (hall y' hy')

/-- If all schemas of a job can be merged and all files loaded, coercion succeeds on every dataset,
in whatever order its steps are taken. The schemas that it leaves can be merged exactly if datasets
that share a column promote it alike, and a file can still be loaded exactly if all of its columns of
a promoted name hold nothing but numbers and blanks. -/
theorem coercion_outcome (job : Job) (files : FileTree) (hcheck : job.check = .ok ())
    (hmerge : ∃ merged, Schema.merge (job.datasets.map Dataset.schema) = .ok merged)
    (hloads : ∀ d ∈ job.datasets, d.LoadsIn files) :
    ∃ values, List.Forall₂ (Dataset.PromotedTo files) job.datasets values ∧
      (∀ (schedule : Schedule) (s : Session), s.files = files →
        ∃ u, coerceDatasets schedule job.datasets s =
          (.ok (values.map Prod.fst, values.map Prod.snd), u)) ∧
      ((∃ merged, Schema.merge (values.map fun value => value.1.schema) = .ok merged) ↔
        job.datasets.Pairwise (Dataset.PromotesAlike files)) ∧
      List.Forall₂ (fun d value => value.1.LoadsIn files ↔ d.Consistent files) job.datasets
        values := by
  have hchecked := Job.checked hcheck
  obtain ⟨values, hlength, hvalues⟩ : ∃ values : List (Dataset × Coercion),
      values.length = job.datasets.length ∧ ∀ (i : Nat) (d : Dataset) (value : Dataset × Coercion),
        job.datasets[i]? = some d → values[i]? = some value → d.PromotedTo files value := by
    refine exists_list fun i d hd => ?_
    have hmem := List.mem_of_getElem? hd
    exact (hloads d hmem).promotedTo (hchecked.declared d hmem)
  have hall := forall₂_of_getElem? hlength.symm hvalues
  refine ⟨values, hall, fun schedule s hs => ?_, ?_, ?_⟩
  · subst hs
    obtain ⟨v, hv⟩ := coercion_succeeds (hall.imp fun d value h => h.prepares) schedule
    rw [coerceDatasets_apply, hv]
    exact ⟨_, rfl⟩
  · have heven : ∀ s ∈ job.datasets.map Dataset.schema, s.Even := by
      intro s hs
      obtain ⟨d, hd, rfl⟩ := List.mem_map.1 hs
      exact hchecked.even d hd
    have heven' : ∀ s ∈ values.map fun value => value.1.schema, s.Even := by
      intro s hs
      obtain ⟨value, hvalue, rfl⟩ := List.mem_map.1 hs
      obtain ⟨d, hd, h⟩ := exists_left_of_forall₂ hall hvalue
      rw [h.schema]
      exact (hchecked.even d hd).promote _
    rw [Schema.merge_ok_iff heven', List.pairwise_map]
    have haccepts := (Schema.merge_ok_iff heven).1 hmerge
    rw [List.pairwise_map] at haccepts
    refine (pairwise_iff_of_forall₂ hall ?_).symm
    refine haccepts.imp_of_mem fun {d e} hd he h value value' hvalue hvalue' => ?_
    exact (accepts_iff_promotesAlike hvalue hvalue' (hchecked.even d hd) (hchecked.even e he)
      h).symm
  · refine forall₂_of_getElem? hlength.symm fun i d value hd hvalue => ?_
    have hmem := List.mem_of_getElem? hd
    exact (hvalues i d value hd hvalue).loadsIn_iff (hchecked.even d hmem) (hloads d hmem)

/-! ## Two inputs with a column in common, and one with a column twice -/

/-- Two inputs with the same key column of text. -/
def sharedJob : Job where
  datasets := [⟨"a.csv", ⟨["id"], ["x"], [], [.text], [.int64], []⟩, ["id"], some Delimiter.comma⟩,
    ⟨"b.csv", ⟨["id"], ["y"], [], [.text], [.int64], []⟩, ["id"], some Delimiter.comma⟩]
  output := ⟨"out.csv", "out.json"⟩

/-- The key is a number in the first input, and no number in the second. -/
def sharedFiles : FileTree := textFiles "id,x\n1,2\n" "id,y\nk,3\n"

/-- Two inputs with key columns of text of different names. -/
def repeatedJob : Job where
  datasets := [⟨"a.csv", ⟨["id"], [], [], [.text], [], []⟩, ["id"], some Delimiter.comma⟩,
    ⟨"b.csv", ⟨["uid"], [], [], [.text], [], []⟩, ["uid"], some Delimiter.comma⟩]
  output := ⟨"out.csv", "out.json"⟩

/-- The first input has two columns of the name of its key, and only the first holds a number. -/
def repeatedFiles : FileTree := textFiles "id,id\n1,k\n" "uid\n1\n"

theorem loads_sharedJob : ∀ d ∈ sharedJob.datasets, d.LoadsIn sharedFiles := by
  intro d hd
  rcases List.mem_pair.1 hd with rfl | rfl
  · exact ⟨Delimiter.comma, ⟨["id", "x"], [.text, .int64], [[.text "1", .int 2]]⟩, rfl,
      by decide +kernel⟩
  · exact ⟨Delimiter.comma, ⟨["id", "y"], [.text, .int64], [[.text "k", .int 3]]⟩, rfl,
      by decide +kernel⟩

theorem loads_repeatedJob : ∀ d ∈ repeatedJob.datasets, d.LoadsIn repeatedFiles := by
  intro d hd
  rcases List.mem_pair.1 hd with rfl | rfl
  · exact ⟨Delimiter.comma, ⟨["id", "id"], [.text, .text], [[.text "1", .text "k"]]⟩, rfl,
      by decide +kernel⟩
  · exact ⟨Delimiter.comma, ⟨["uid"], [.text], [[.text "1"]]⟩, rfl, by decide +kernel⟩

/-- Coercion leaves schemas that are in conflict if a shared column holds numbers in one input only,
and a file that cannot be loaded if another column bears the name of a promoted one. -/
theorem coercion_outcome_conflicts :
    (sharedJob.check = .ok () ∧
      (∃ merged, Schema.merge (sharedJob.datasets.map Dataset.schema) = .ok merged) ∧
      (∀ d ∈ sharedJob.datasets, d.LoadsIn sharedFiles) ∧
      ∃ values, List.Forall₂ (Dataset.PreparesTo sharedFiles) sharedJob.datasets values ∧
        ¬ ∃ merged, Schema.merge (values.map fun value => value.1.schema) = .ok merged) ∧
    repeatedJob.check = .ok () ∧
      (∃ merged, Schema.merge (repeatedJob.datasets.map Dataset.schema) = .ok merged) ∧
      (∀ d ∈ repeatedJob.datasets, d.LoadsIn repeatedFiles) ∧
      ∃ values, List.Forall₂ (Dataset.PreparesTo repeatedFiles) repeatedJob.datasets values ∧
        ∃ value ∈ values, ¬ value.1.LoadsIn repeatedFiles := by
  have hshared : ∃ merged, Schema.merge (sharedJob.datasets.map Dataset.schema) = .ok merged :=
    ⟨⟨["id", "id"], ["x", "y"], [], [.text, .text], [.int64, .int64], []⟩, by decide⟩
  have hrepeated : ∃ merged,
      Schema.merge (repeatedJob.datasets.map Dataset.schema) = .ok merged :=
    ⟨⟨["id", "uid"], [], [], [.text, .text], [], []⟩, by decide⟩
  refine ⟨⟨by decide, hshared, loads_sharedJob, ?_⟩, by decide, hrepeated, loads_repeatedJob, ?_⟩
  · obtain ⟨values, hvalues, -, hmerges, -⟩ :=
      coercion_outcome sharedJob sharedFiles (by decide) hshared loads_sharedJob
    refine ⟨values, hvalues.imp fun d value h => h.prepares, fun hmerged => ?_⟩
    have hpairs := hmerges.1 hmerged
    have hid := (List.pairwise_cons.1 hpairs).1 _ List.mem_cons_self "id" (by decide) (by decide)
    have hfirst : Dataset.Promotes sharedFiles ⟨"a.csv", ⟨["id"], ["x"], [], [.text], [.int64], []⟩,
        ["id"], some Delimiter.comma⟩ "id" :=
      ⟨by decide, by decide, Delimiter.comma, ⟨["id", "x"], [.ok ["1", "2"]]⟩, 0, rfl,
        by decide +kernel, by decide, by decide +kernel⟩
    obtain ⟨-, -, b, sheet, i, hb, hread, hplace, hnumeric⟩ := hid.1.1 hfirst
    cases hb
    have hsheet : sharedFiles.readSheet "b.csv" Delimiter.comma =
        .ok ⟨["id", "y"], [.ok ["k", "3"]]⟩ := by decide +kernel
    cases hread.symm.trans hsheet
    cases hplace
    exact absurd hnumeric (by decide +kernel)
  · obtain ⟨values, hvalues, -, -, hloads⟩ :=
      coercion_outcome repeatedJob repeatedFiles (by decide) hrepeated loads_repeatedJob
    refine ⟨values, hvalues.imp fun d value h => h.prepares, ?_⟩
    obtain ⟨value, rest, hvalue, -, rfl⟩ := List.forall₂_cons_left_iff.1 hloads
    refine ⟨value, List.mem_cons_self, fun hload => ?_⟩
    have hsheet : repeatedFiles.readSheet "a.csv" Delimiter.comma =
        .ok ⟨["id", "id"], [.ok ["1", "k"]]⟩ := by decide +kernel
    have hsecond := hvalue.1 hload _ _ rfl hsheet 1 "id" rfl ⟨by decide, by decide, Delimiter.comma,
      _, 0, rfl, hsheet, by decide, by decide +kernel⟩
    exact absurd hsecond (by decide +kernel)

end Equijoin
