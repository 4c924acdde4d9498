import Equijoin.Proofs.Runs.Publication
import Equijoin.Proofs.Tables.Shards

/-! # What it takes for a run to succeed

The tasks of a run succeed exactly if its inputs can be prepared and loaded, as long as the run can
make files of its own.

* `Job.Loads`: all inputs can be prepared, their schemas merged and their files loaded.
* `Job.shardCount`: the number of shards of a run.
* `Job.Plain`: the inputs can be written again as they were read, if they are split.
* `Job.PreparedAs.joins`: inputs that can be loaded can be joined.
-/

set_option autoImplicit false

namespace Equijoin

open FileTree

variable {job : Job} {options : Options} {schedules : Schedules} {s : Session}

/-! ## What a run reads -/

/-- All inputs can be prepared alone, their schemas merged and their files loaded. -/
structure Job.Loads (job : Job) (files : FileTree) (inputs : List Dataset) (tables : List Table) :
    Prop where
  prepares : List.Forall₂ (fun d d' => ∃ done, d.PreparesTo files (d', done)) job.datasets inputs
  merges : ∃ merged, Schema.merge (inputs.map Dataset.schema) = .ok merged
  loads : LoadsAll files inputs tables

/-- The number of shards of a run: the given one, or the one that the sizes ask for. -/
def Job.shardCount (job : Job) (options : Options) (files : FileTree) : Outcome Nat :=
  (largestInput files (job.datasets.map Dataset.path)).map fun largest =>
    options.shardCount.getD (shardsFor largest options.shardSizeLimit)

theorem shardCount_pos {files : FileTree} {count : Nat} (hoptions : options.shardCount ≠ some 0)
    (h : job.shardCount options files = .ok count) : 0 < count := by
  obtain ⟨largest, -, rfl⟩ := map_eq_ok.1 h
  cases hcount : options.shardCount with
  | none =>
    rw [Option.getD_none, shardsFor]
    omega
  | some n =>
    rw [Option.getD_some]
    refine Nat.pos_of_ne_zero fun hn => hoptions ?_
    rw [hcount, hn]

/-! ## Opening -/

theorem opening_eq_ok {count : Nat} {o : Session} (h : job.opening options s = (.ok count, o)) :
    job.shardCount options s.files = .ok count ∧ o.files = s.files := by
  obtain ⟨⟨⟩, u, henter, h⟩ := Phase.bind_eq_ok.1 h
  cases henter
  obtain ⟨⟨⟩, u, hcheck, h⟩ := Phase.bind_eq_ok.1 h
  cases congrArg Prod.snd hcheck
  obtain ⟨⟨⟩, u, henter, h⟩ := Phase.bind_eq_ok.1 h
  cases henter
  obtain ⟨files, u, hfiles, h⟩ := Phase.bind_eq_ok.1 h
  cases hfiles
  obtain ⟨largest, u, hlargest, h⟩ := Phase.bind_eq_ok.1 h
  cases congrArg Prod.snd hlargest
  obtain ⟨⟨⟩, u, hemit, h⟩ := Phase.bind_eq_ok.1 h
  cases hemit
  cases h
  exact ⟨map_eq_ok.2 ⟨largest, congrArg Prod.fst hlargest, rfl⟩, rfl⟩

theorem opening_of_shardCount {count : Nat} (hcheck : job.check = .ok ())
    (h : job.shardCount options s.files = .ok count) :
    ∃ o, job.opening options s = (.ok count, o) ∧ o.files = s.files := by
  obtain ⟨largest, hlargest, rfl⟩ := map_eq_ok.1 h
  have hchecked : Phase.ofOutcome job.check (s.enter .keyValidation) =
      (.ok (), s.enter .keyValidation) := by
    rw [hcheck]
    rfl
  have hcounted : Phase.ofOutcome (largestInput s.files (job.datasets.map Dataset.path))
      ((s.enter .keyValidation).enter .typeCoercion) =
      (.ok largest, (s.enter .keyValidation).enter .typeCoercion) := by
    rw [hlargest]
    rfl
  refine ⟨((s.enter .keyValidation).enter .typeCoercion).emit (.shardCountDecided
    (options.shardCount.getD (shardsFor largest options.shardSizeLimit)) largest), ?_, rfl⟩
  refine Phase.bind_eq_ok.2 ⟨(), _, rfl, Phase.bind_eq_ok.2 ⟨(), _, hchecked, ?_⟩⟩
  refine Phase.bind_eq_ok.2 ⟨(), _, rfl, Phase.bind_eq_ok.2 ⟨s.files, _, rfl, ?_⟩⟩
  exact Phase.bind_eq_ok.2 ⟨largest, _, hcounted, Phase.bind_eq_ok.2 ⟨(), _, rfl, rfl⟩⟩

theorem inputSize_ok {t : FileTree} {path : String} {text : Bytes}
    (h : t.read path = .ok text) (hne : text ≠ []) : ∃ n, inputSize t path = .ok n := by
  obtain ⟨l, hl, h⟩ := bind_eq_ok.1 h
  have hsize : t.size path = .ok text.length := by
    unfold FileTree.size
    rw [hl, ok_bind]
    split at h
    · rename_i content hnode
      cases h
      rfl
    · cases h
    · cases h
  cases text with
  | nil => exact absurd rfl hne
  | cons b rest =>
    refine ⟨(b :: rest).length, ?_⟩
    unfold inputSize
    rw [hsize]
    rfl

theorem Dataset.Opened.text {files : FileTree} {d : Dataset} {delimiter : UInt8}
    {sheet : Csv.Sheet} {types : List ColumnType} {places : List Nat}
    (h : d.Opened files delimiter sheet types places) (hkey : d.key ≠ []) :
    ∃ text, files.read d.path = .ok text ∧ text ≠ [] := by
  obtain ⟨text, htext, hread⟩ := readSheet_eq_ok.1 h.read
  refine ⟨text, htext, ?_⟩
  rintro rfl
  -- an empty file has no columns, so that the key cannot be found
  cases hread
  obtain ⟨name, names, hkey⟩ := List.exists_cons_of_ne_nil hkey
  have hplaced := positions_eq_ok.1 h.placed
  rw [hkey] at hplaced
  obtain ⟨i, -, hi, -⟩ := List.forall₂_cons_left_iff.1 hplaced
  cases hi

/-! ## Prepared inputs -/

/-- The inputs are the datasets of the job, prepared. -/
def Job.PreparedAs (job : Job) (files : FileTree) (inputs : List Dataset) : Prop :=
  List.Forall₂ (fun d d' => ∃ c delimiter sheet types places,
    d.Prepared files d' c delimiter sheet types places) job.datasets inputs

theorem Job.Loads.preparedAs {files : FileTree} {inputs : List Dataset} {tables : List Table}
    (h : job.Loads files inputs tables) : job.PreparedAs files inputs := by
  refine h.prepares.imp fun d d' hd => ?_
  obtain ⟨done, hdone⟩ := hd
  obtain ⟨delimiter, sheet, types, places, hd⟩ := hdone.prepared
  exact ⟨done, delimiter, sheet, types, places, hd⟩

theorem Job.PreparedAs.keys {files : FileTree} {inputs : List Dataset}
    (h : job.PreparedAs files inputs) : inputs.map Dataset.key = job.datasets.map Dataset.key := by
  unfold Job.PreparedAs at h
  generalize job.datasets = datasets at h
  induction h with
  | nil => rfl
  | cons hd _ ih =>
    obtain ⟨c, delimiter, sheet, types, places, hd⟩ := hd
    rw [List.map_cons, List.map_cons, ih, hd.result]

theorem Job.PreparedAs.mem {files : FileTree} {inputs : List Dataset}
    (h : job.PreparedAs files inputs) {d' : Dataset} (hd' : d' ∈ inputs) :
    ∃ d ∈ job.datasets, ∃ c delimiter sheet types places,
      d.Prepared files d' c delimiter sheet types places :=
  exists_left_of_forall₂ h hd'

theorem Job.PreparedAs.counts {files : FileTree} {inputs : List Dataset}
    (h : job.PreparedAs files inputs) (hchecked : job.Checked) (options : Options) :
    ∃ count, job.shardCount options files = .ok count := by
  have hsizes : ∀ path ∈ job.datasets.map Dataset.path, ∃ n, inputSize files path = .ok n := by
    intro path hpath
    obtain ⟨d, hd, rfl⟩ := List.mem_map.1 hpath
    obtain ⟨d', -, c, delimiter, sheet, types, places, hprepared⟩ := exists_right_of_forall₂ h hd
    have hkey : d.key ≠ [] := by
      intro hnil
      have harity := hchecked.arity d hd
      rw [hnil] at harity
      exact hchecked.keyed harity.symm
    obtain ⟨text, htext, hne⟩ := hprepared.scanned.text hkey
    exact inputSize_ok htext hne
  obtain ⟨sizes, hsizes⟩ := mapM_ok hsizes
  exact ⟨_, map_eq_ok.2 ⟨sizes.foldl max 0, bind_eq_ok.2 ⟨sizes, hsizes, rfl⟩, rfl⟩⟩

/-- The inputs of a job can be split into so many shards: if they are written again, no delimiter
that is given has another meaning, and no column name begins with a byte order mark. -/
structure Job.Plain (job : Job) (count : Nat) : Prop where
  separates : 1 < count → ∀ d ∈ job.datasets, ∀ b, d.delimiter = some b → Csv.Separates b
  unmarked : 1 < count →
    ∀ d ∈ job.datasets, ∀ name ∈ d.schema.names, name.toList.head? ≠ some Csv.mark

theorem separates_of_mem_candidates {b : UInt8} (h : b ∈ Delimiter.candidates) :
    Csv.Separates b := by
  simp only [Delimiter.candidates, List.mem_cons, List.not_mem_nil, or_false] at h
  rcases h with rfl | rfl | rfl | rfl <;> exact ⟨by decide, by decide⟩

theorem Job.PreparedAs.keyed {files : FileTree} {inputs : List Dataset}
    (h : job.PreparedAs files inputs) (hchecked : job.Checked) {d' : Dataset} (hd' : d' ∈ inputs) :
    d'.key ≠ [] ∧ ∀ name ∈ d'.key, name ∈ d'.schema.names := by
  obtain ⟨d, hd, c, delimiter, sheet, types, places, hprepared⟩ := h.mem hd'
  have hkey : d'.key = d.key := by rw [hprepared.result]
  refine ⟨fun hnil => ?_, fun name hname => ?_⟩
  · have harity := hchecked.arity d hd
    rw [← hkey, hnil] at harity
    exact hchecked.keyed harity.symm
  · rw [hkey] at hname
    have hnames : d'.schema.names = d.schema.names := by
      rw [hprepared.result]
      exact Schema.names_promote _ _
    rw [hnames]
    exact hchecked.declared d hd name hname

/-- A delimiter that is found out separates, and so does one that is given, if it may. -/
theorem Job.PreparedAs.separates {files : FileTree} {inputs : List Dataset}
    (h : job.PreparedAs files inputs)
    (hgiven : ∀ d ∈ job.datasets, ∀ b, d.delimiter = some b → Csv.Separates b) {d' : Dataset}
    (hd' : d' ∈ inputs) : Csv.Separates d'.separator := by
  obtain ⟨d, hd, c, delimiter, sheet, types, places, hprepared⟩ := h.mem hd'
  rw [hprepared.separator_eq]
  rcases hprepared.mayUse with hsome | ⟨-, hfound⟩
  · exact hgiven d hd delimiter hsome
  · exact separates_of_mem_candidates hfound

theorem Job.PreparedAs.rewritable {files : FileTree} {inputs : List Dataset} {count : Nat}
    (h : job.PreparedAs files inputs) (hchecked : job.Checked) (hplain : job.Plain count)
    {d' : Dataset} (hd' : d' ∈ inputs) : d'.Rewritable d'.separator count := by
  obtain ⟨hkey, hdeclared⟩ := h.keyed hchecked hd'
  obtain ⟨d, hd, c, delimiter, sheet, types, places, hprepared⟩ := h.mem hd'
  refine ⟨fun hcount => h.separates (hplain.separates hcount) hd', hkey, hdeclared,
    fun hcount name hname => ?_⟩
  have hnames : d'.schema.names = d.schema.names := by
    rw [hprepared.result]
    exact Schema.names_promote _ _
  rw [hnames] at hname
  exact hplain.unmarked hcount d hd name hname

theorem Job.Loads.inputs_unique {files : FileTree} {inputs inputs' : List Dataset}
    {tables tables' : List Table} (h : job.Loads files inputs tables)
    (h' : job.Loads files inputs' tables') : inputs = inputs' := by
  refine List.ext_getElem? fun i => ?_
  cases hd : job.datasets[i]? with
  | none =>
    have hi := List.getElem?_eq_none_iff.1 hd
    rw [List.getElem?_eq_none (h.prepares.length_eq ▸ hi),
      List.getElem?_eq_none (h'.prepares.length_eq ▸ hi)]
  | some d =>
    obtain ⟨a, ha, done, hone⟩ := getElem?_of_forall₂ h.prepares hd
    obtain ⟨b, hb, done', hone'⟩ := getElem?_of_forall₂ h'.prepares hd
    cases hone.symm.trans hone'
    rw [ha, hb]

/-! ## The join of the inputs -/

/-- The key of dataset 0. -/
def Job.leadingKey (job : Job) : List String := ((job.datasets.map Dataset.key).head?).getD []

theorem Job.Checked.keys (h : job.Checked) :
    ∃ keys, job.datasets.map Dataset.key = job.leadingKey :: keys ∧
      unequalKeys? (job.leadingKey :: keys) = none := by
  unfold Job.leadingKey
  have hseveral := h.several
  have harity := h.arity
  cases hdatasets : job.datasets with
  | nil =>
    rw [hdatasets] at hseveral
    cases hseveral
  | cons first rest =>
    refine ⟨rest.map Dataset.key, rfl, unequalKeys?_eq_none.2 fun key hkey => ?_⟩
    obtain ⟨d, hd, rfl⟩ := List.mem_map.1 hkey
    have hfirst := harity first (by simp [hdatasets])
    have hother := harity d (by simp [hdatasets, hd])
    show d.key.length = first.key.length
    rw [hfirst, hother]

theorem LoadsAll.congr {t u : FileTree} {inputs : List Dataset} {tables : List Table}
    (h : LoadsAll t inputs tables) (hsame : AgreeOn Location.Spelled t u) :
    LoadsAll u inputs tables :=
  List.Forall₂.imp (fun d table hload => by
    rw [← hload]
    exact (hsame.load (p := d.path) (fun l hl => hl) _ _).symm) h

/-- Inputs that can be loaded can be joined. -/
theorem Job.PreparedAs.joins {files : FileTree} {inputs : List Dataset} {tables : List Table}
    (h : job.PreparedAs files inputs) (hchecked : job.Checked)
    (hloads : LoadsAll files inputs tables) :
    ∃ result places, joinTables tables (job.datasets.map Dataset.key) = .ok result ∧
      result.positions job.leadingKey = .ok places ∧ result.Rectangular := by
  obtain ⟨keys, hkeys, hequal⟩ := hchecked.keys
  have hlength : tables.length = (job.datasets.map Dataset.key).length := by
    rw [← hloads.length_eq, ← h.keys, List.length_map]
  have hne : tables ≠ [] := by
    rintro rfl
    rw [hkeys] at hlength
    cases hlength
  obtain ⟨result, hresult⟩ : ∃ result, joinTables tables (job.datasets.map Dataset.key) =
      .ok result := by
    refine joinTables_ok hlength (hkeys ▸ hequal) hne fun p hp => ?_
    obtain ⟨i, hi⟩ := List.mem_iff_getElem?.1 hp
    obtain ⟨htable, hkey⟩ := List.getElem?_zip_eq_some.1 hi
    rw [← h.keys, List.getElem?_map, Option.map_eq_some_iff] at hkey
    obtain ⟨d', hd', hkey⟩ := hkey
    obtain ⟨table, htable', hone⟩ := getElem?_of_forall₂ hloads hd'
    cases htable.symm.trans htable'
    obtain ⟨-, -, places, -, -, -, hplaces, -⟩ :=
      opened_of_load (h.keyed hchecked (List.mem_of_getElem? hd')).2 hone
    exact ⟨places, hkey ▸ hplaces⟩
  have hjoin := hresult
  rw [hkeys] at hjoin
  obtain ⟨-, -, places, -, -, hplaces, -⟩ := positions_joinTables hjoin
  exact ⟨result, places, hresult, hplaces, rectangular_joinTables hloads.rectangular hresult⟩

end Equijoin
