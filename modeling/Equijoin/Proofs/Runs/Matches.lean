import Equijoin.Proofs.Runs.Refinement
import Equijoin.Proofs.Tables.TextKeys

/-! # Records with the same key texts

If all key columns are declared as text, records of all inputs with the same key texts are joined,
provided that coercion treats their columns alike and takes none of the texts for a NaN. If it does
not, they are not.

* `Comparable`: coercion lets key texts be compared.
* `RowsOf`: rows of all tables that hold records with the same key texts.
* `RowsOf.joined`, `RowsOf.comparable`: such rows are joined exactly if the texts can be compared.
* `run_matches`: what a run does with such records.
-/

set_option autoImplicit false

namespace Equijoin

variable {job : Job} {options : Options} {schedules : Schedules} {s : Session}

/-- Key texts can be compared: each key column holds nothing but numbers and blanks in all inputs or
in none, and where it does, its text is a number. -/
def Comparable (files : FileTree) (inputs : List Dataset) (texts : List String) : Prop :=
  ∃ numeric : List Bool, (∀ d ∈ inputs, d.Numeric files numeric) ∧
    ∀ p ∈ numeric.zip texts, p.1 = true → ∃ x, Binary64.read? p.2 = some x ∧ x.isNaN = false

/-- The rows hold the records, which have the texts as their keys. -/
def RowsOf (files : FileTree) (inputs : List Dataset) (tables : List Table) (texts : List String)
    (records : List (List String)) (rows : List Row) : Prop :=
  rows.length = inputs.length ∧ ∀ (i : Nat) (d : Dataset) (row : Row), inputs[i]? = some d →
    rows[i]? = some row → ∃ table cells numeric, tables[i]? = some table ∧
      records[i]? = some cells ∧ d.Numeric files numeric ∧ numeric.length = texts.length ∧
      table.HasRow cells row ∧ HasKey (List.zipWith KeyAtom.ofText numeric texts) (table, d.key) row

section Rows

variable {files : FileTree} {inputs : List Dataset} {tables : List Table} {texts : List String}
  {records : List (List String)} {rows : List Row}

theorem Job.Loads.exists_rowsOf (h : job.Loads files inputs tables) (hchecked : job.Checked)
    (htext : ∀ d ∈ job.datasets, d.TextKeyed) (hne : "" ∉ texts)
    (hrecords : List.Forall₂ (fun d cells => d.HasRecord files texts cells) inputs records) :
    ∃ rows, RowsOf files inputs tables texts records rows := by
  refine exists_list fun i d' hd' => ?_
  obtain ⟨table, htable, hload⟩ := getElem?_of_forall₂ h.loads hd'
  obtain ⟨cells, hcells, hrecord⟩ := getElem?_of_forall₂ hrecords hd'
  obtain ⟨d, hd, hprepared⟩ := getElem?_of_forall₂ (List.Forall₂.flip h.preparedAs) hd'
  obtain ⟨c, delimiter, sheet, types, places, hprepared⟩ := hprepared
  have hmem := List.mem_of_getElem? hd
  obtain ⟨numeric, row, hnumeric, hlength, hrow, hkey⟩ := hprepared.hasKey (hchecked.even d hmem)
    (hchecked.declared d hmem) (htext d hmem) hload hrecord hne
  exact ⟨row, table, cells, numeric, htable, hcells, hnumeric, hlength, hrow, hkey⟩

namespace RowsOf

theorem at_table (h : RowsOf files inputs tables texts records rows)
    (hloads : LoadsAll files inputs tables) {i : Nat} {table : Table} {row : Row}
    (htable : tables[i]? = some table) (hrow : rows[i]? = some row) :
    ∃ d cells numeric, inputs[i]? = some d ∧ records[i]? = some cells ∧
      d.Numeric files numeric ∧ table.HasRow cells row ∧
      HasKey (List.zipWith KeyAtom.ofText numeric texts) (table, d.key) row := by
  obtain ⟨d, hd, -⟩ := getElem?_of_forall₂ hloads.flip htable
  obtain ⟨table', cells, numeric, htable', hcells, hnumeric, -, hhas, hkey⟩ := h.2 i d row hd hrow
  cases htable.symm.trans htable'
  exact ⟨d, cells, numeric, hd, hcells, hnumeric, hhas, hkey⟩

theorem hasRow (h : RowsOf files inputs tables texts records rows)
    (hloads : LoadsAll files inputs tables) (hlength : records.length = inputs.length) :
    List.Forall₂ (fun (p : Table × List String) row => p.1.HasRow p.2 row) (tables.zip records)
      rows := by
  refine forall₂_of_getElem? ?_ fun i p row hp hrow => ?_
  · rw [List.length_zip, ← hloads.length_eq, hlength, Nat.min_self, h.1]
  · obtain ⟨table, cells⟩ := p
    obtain ⟨htable, hcells⟩ := List.getElem?_zip_eq_some.1 hp
    obtain ⟨d, cells', numeric, -, hcells', -, hhas, -⟩ := h.at_table hloads htable hrow
    cases hcells.symm.trans hcells'
    exact hhas

theorem hasKey (h : RowsOf files inputs tables texts records rows)
    (hloads : LoadsAll files inputs tables) {numeric : List Bool}
    (hnumeric : ∀ d ∈ inputs, d.Numeric files numeric) :
    List.Forall₂ (HasKey (List.zipWith KeyAtom.ofText numeric texts))
      (tables.zip (inputs.map Dataset.key)) rows := by
  refine forall₂_of_getElem? ?_ fun i p row hp hrow => ?_
  · rw [List.length_zip, List.length_map, ← hloads.length_eq, Nat.min_self, h.1]
  · obtain ⟨table, key⟩ := p
    obtain ⟨htable, hkey⟩ := List.getElem?_zip_eq_some.1 hp
    rw [List.getElem?_map, Option.map_eq_some_iff] at hkey
    obtain ⟨d, hd, rfl⟩ := hkey
    obtain ⟨d', cells, numeric', hd', -, hnumeric', -, hhas⟩ := h.at_table hloads htable hrow
    cases hd.symm.trans hd'
    cases hnumeric'.unique (hnumeric d (List.mem_of_getElem? hd))
    exact hhas

/-- The rows are joined if their texts can be compared. -/
theorem joined (h : RowsOf files inputs tables texts records rows)
    (hloads : job.Loads files inputs tables) (hcomparable : Comparable files inputs texts)
    {result : Table} (hjoin : joinTables tables (inputs.map Dataset.key) = .ok result) :
    ∃ r ∈ result.rows, joinTables (List.zipWith Table.only tables rows)
      (inputs.map Dataset.key) = .ok (result.only r) := by
  obtain ⟨numeric, hnumeric, hnumbers⟩ := hcomparable
  exact joinTables_only hloads.loads.rectangular (isJoinable_zipWith.2 hnumbers)
    (h.hasKey hloads.loads hnumeric) hjoin

theorem only_rectangular (h : RowsOf files inputs tables texts records rows)
    (hloads : job.Loads files inputs tables) :
    ∀ t ∈ List.zipWith Table.only tables rows, t.Rectangular := by
  intro t ht
  obtain ⟨i, hi⟩ := List.mem_iff_getElem?.1 ht
  obtain ⟨table, row, htable, hrow, rfl⟩ := List.getElem?_zipWith_eq_some.1 hi
  obtain ⟨d, cells, numeric, -, -, -, hhas, -⟩ := h.at_table hloads.loads htable hrow
  have hrectangular := hloads.loads.rectangular table (List.mem_of_getElem? htable)
  refine ⟨hrectangular.1, fun row' hrow' => ?_⟩
  rw [List.mem_singleton.1 hrow']
  exact hrectangular.2 row hhas.1

theorem key_eq (h : RowsOf files inputs tables texts records rows) {key : Key}
    (hkey : ∀ p ∈ (List.zipWith Table.only tables rows).zip (inputs.map Dataset.key),
      ∃ row, HasKey key p row) {d : Dataset} (hd : d ∈ inputs) :
    ∃ numeric, d.Numeric files numeric ∧ numeric.length = texts.length ∧
      List.zipWith KeyAtom.ofText numeric texts = key := by
  obtain ⟨i, hi⟩ := List.mem_iff_getElem?.1 hd
  obtain ⟨row, hrow⟩ : ∃ row, rows[i]? = some row := by
    have hlt := (List.getElem?_eq_some_iff.1 hi).1
    exact ⟨_, List.getElem?_eq_getElem (h.1.symm ▸ hlt)⟩
  obtain ⟨table, cells, numeric, htable, -, hnumeric, hlength, -, -, places, hplaces, hown⟩ :=
    h.2 i d row hi hrow
  have honly : (List.zipWith Table.only tables rows)[i]? = some (table.only row) :=
    List.getElem?_zipWith_eq_some.2 ⟨table, row, htable, hrow, rfl⟩
  have hname : (inputs.map Dataset.key)[i]? = some d.key := by rw [List.getElem?_map, hi]; rfl
  obtain ⟨row', hrow', places', hplaces', hsame⟩ := hkey (table.only row, d.key)
    (List.mem_of_getElem? (List.getElem?_zip_eq_some.2 ⟨honly, hname⟩))
  obtain rfl := List.mem_singleton.1 hrow'
  have hpositions : table.positions d.key = .ok places' := hplaces'
  cases hplaces.symm.trans hpositions
  exact ⟨numeric, hnumeric, hlength, hown.symm.trans hsame⟩

/-- The rows are joined only if their texts can be compared. -/
theorem comparable (h : RowsOf files inputs tables texts records rows)
    (hloads : job.Loads files inputs tables) (hseveral : 1 < inputs.length) {own : Table} {r : Row}
    (hjoin : joinTables (List.zipWith Table.only tables rows) (inputs.map Dataset.key) = .ok own)
    (hr : r ∈ own.rows) : Comparable files inputs texts := by
  have htables : tables.length = inputs.length := hloads.loads.length_eq.symm
  obtain ⟨key, hjoinable, hkey⟩ := keys_of_joinTables (h.only_rectangular hloads)
    (by rw [List.length_zipWith, htables, h.1, Nat.min_self]; exact hseveral) hjoin hr
  obtain ⟨d, hd⟩ := List.exists_mem_of_length_pos (Nat.zero_lt_of_lt hseveral)
  obtain ⟨numeric, -, hlength, rfl⟩ := h.key_eq hkey hd
  refine ⟨numeric, fun d' hd' => ?_, isJoinable_zipWith.1 hjoinable⟩
  obtain ⟨numeric', hnumeric', hlength', hsame⟩ := h.key_eq hkey hd'
  exact zipWith_ofText_injective hlength' hlength hsame ▸ hnumeric'

theorem joins (h : RowsOf files inputs tables texts records rows)
    (hloads : job.Loads files inputs tables) {result : Table}
    (hjoin : joinTables tables (inputs.map Dataset.key) = .ok result) :
    ∃ own, joinTables (List.zipWith Table.only tables rows) (inputs.map Dataset.key) = .ok own := by
  obtain ⟨-, hkeys, first, key, rest, places, hzip, -⟩ := joinTables_eq_ok.1 hjoin
  have htables : tables.length = inputs.length := hloads.loads.length_eq.symm
  have hlength : (List.zipWith Table.only tables rows).length = inputs.length := by
    rw [List.length_zipWith, htables, h.1, Nat.min_self]
  refine joinTables_ok (by rw [hlength, List.length_map]) hkeys ?_ fun p hp => ?_
  · intro hnil
    rw [hnil] at hlength
    rw [List.length_eq_zero_iff.1 (htables.trans hlength.symm)] at hzip
    cases hzip
  · obtain ⟨i, hi⟩ := List.mem_iff_getElem?.1 hp
    obtain ⟨t, key⟩ := p
    obtain ⟨ht, hkey⟩ := List.getElem?_zip_eq_some.1 hi
    obtain ⟨table, row, htable, hrow, rfl⟩ := List.getElem?_zipWith_eq_some.1 ht
    rw [List.getElem?_map, Option.map_eq_some_iff] at hkey
    obtain ⟨d, hd, rfl⟩ := hkey
    obtain ⟨d', cells, numeric, hd', -, -, -, -, places, hplaces, -⟩ :=
      h.at_table hloads.loads htable hrow
    cases hd.symm.trans hd'
    exact ⟨places, hplaces⟩

end RowsOf

end Rows

/-! ## Runs -/

/-- If all key columns are declared as text, a run that succeeds joins whichever records of its
inputs have the same key texts, none of which is blank, to a row of the output, provided that the
texts can be compared. Otherwise these records are not joined. -/
theorem run_matches (job : Job) (options : Options) (schedules : Schedules) (elapsed : Duration)
    (s : Session) (report : Report) (htext : ∀ d ∈ job.datasets, d.TextKeyed)
    (hplain : ∀ count, job.shardCount options s.files = .ok count → job.Plain count)
    (hdiff : ∀ l, s.files.destination job.output.dataPath = .ok l →
      s.files.destination job.output.schemaPath ≠ .ok l)
    (hreport : (job.run options schedules elapsed s).1 = .ok report) :
    ∃ inputs tables result output, job.Loads s.files inputs tables ∧
      joinTables tables (inputs.map Dataset.key) = .ok result ∧
      (job.run options schedules elapsed s).2.files.read job.output.dataPath =
        .ok (outputText result.columns [output]) ∧
      ∀ texts records, "" ∉ texts →
        List.Forall₂ (fun d cells => d.HasRecord s.files texts cells) inputs records →
        ∃ rows, List.Forall₂ (fun (p : Table × List String) row => p.1.HasRow p.2 row)
            (tables.zip records) rows ∧
          (Comparable s.files inputs texts → ∃ r ∈ output.rows, joinTables
            (List.zipWith Table.only tables rows) (inputs.map Dataset.key) =
              .ok (result.only r)) ∧
          (¬ Comparable s.files inputs texts → ∃ own, joinTables
            (List.zipWith Table.only tables rows) (inputs.map Dataset.key) = .ok own ∧
              own.rows = []) := by
  obtain ⟨inputs, tables, result, places, hcheck, h, -, hleaves⟩ :=
    run_leaves hplain hdiff hreport
  have hchecked := Job.checked hcheck
  have hseveral : 1 < inputs.length := by
    rw [← h.prepares.length_eq]
    exact hchecked.several
  have hjoin : joinTables tables (inputs.map Dataset.key) = .ok result := by
    rw [h.preparedAs.keys]
    exact hleaves.joins
  refine ⟨inputs, tables, result, result.byShard places report.shardCount, h, hjoin, hleaves.reads,
    fun texts records hne hrecords => ?_⟩
  obtain ⟨rows, hrows⟩ := h.exists_rowsOf hchecked htext hne hrecords
  refine ⟨rows, hrows.hasRow h.loads hrecords.length_eq.symm, fun hcomparable => ?_, fun hnot => ?_⟩
  · obtain ⟨r, hr, hone⟩ := hrows.joined h hcomparable hjoin
    exact ⟨r, (byShard_perm result places _).mem_iff.2 hr, hone⟩
  · obtain ⟨own, hown⟩ := hrows.joins h hjoin
    refine ⟨own, hown, List.eq_nil_iff_forall_not_mem.2 fun r hr => hnot ?_⟩
    exact hrows.comparable h hseveral hown hr

/-! ## Two inputs with keys of text -/

deriving instance DecidableEq for Csv.Sheet

/-- Two inputs with keys of text. -/
def textJob : Job where
  datasets := [⟨"a.csv", ⟨["id"], ["x"], [], [.text], [.int64], []⟩, ["id"], some Delimiter.comma⟩,
    ⟨"b.csv", ⟨["uid"], ["y"], [], [.text], [.int64], []⟩, ["uid"], some Delimiter.comma⟩]
  output := ⟨"out.csv", "out.json"⟩

/-- The files of both inputs. -/
def textFiles (a b : String) : FileTree :=
  (FileTree.empty.put [.given "a.csv"] (.file (Utf8.encode a))).put [.given "b.csv"]
    (.file (Utf8.encode b))

theorem provided_textJob (a b : String) : textJob.Provided twoShards (textFiles a b) 2 := by
  have hsize : (textFiles a b).pathSize twoShards.scratchParent scratchNameSize =
      FileTree.empty.pathSize twoShards.scratchParent scratchNameSize := rfl
  constructor
  · exact ⟨[.root, .given "tmp", .fresh 0], rfl⟩
  · rw [hsize]
    decide
  · rw [hsize]
    decide
  · exact ⟨[.fresh 0], rfl⟩
  · exact ⟨[.given "out.csv"], rfl, [.fresh 0], rfl⟩
  · exact ⟨[.given "out.json"], rfl⟩

theorem plain_textJob (count : Nat) : textJob.Plain count := by
  refine ⟨fun _ d hd b hb => ?_, fun _ => by decide⟩
  have hcomma : ∀ d ∈ textJob.datasets, d.delimiter = some Delimiter.comma := by decide
  cases (hcomma d hd).symm.trans hb
  exact separates_of_mem_candidates (by decide)

theorem textKeyed_textJob : ∀ d ∈ textJob.datasets, d.TextKeyed := by
  unfold Dataset.TextKeyed
  decide

theorem destinations_textJob (a b : String) (l : Location)
    (h : (textFiles a b).destination textJob.output.dataPath = .ok l) :
    (textFiles a b).destination textJob.output.schemaPath ≠ .ok l := by
  have hdata : (textFiles a b).destination textJob.output.dataPath = .ok [.given "out.csv"] := rfl
  have hschema : (textFiles a b).destination textJob.output.schemaPath =
      .ok [.given "out.json"] := rfl
  cases hdata.symm.trans h
  rw [hschema]
  decide

theorem leaves_textJob {a b : String} {inputs : List Dataset} {tables : List Table}
    (h : textJob.Loads (textFiles a b) inputs tables) :
    ∃ report result places,
      (textJob.run twoShards .sequential .zero (.ofFiles (textFiles a b))).1 = .ok report ∧
      report.shardCount = 2 ∧
      textJob.Leaves twoShards .sequential .zero (.ofFiles (textFiles a b)) tables 2 result
        places := by
  have hcheck : textJob.check = .ok () := by decide
  obtain ⟨count, hcount⟩ := h.preparedAs.counts (Job.checked hcheck) twoShards
  obtain ⟨largest, -, htwo⟩ := map_eq_ok.1 hcount
  have htwo : 2 = count := htwo
  subst htwo
  exact h.leaves hcheck hcount (by decide) (plain_textJob 2) (destinations_textJob a b)
    (provided_textJob a b)

/-- A table with a key column and a feature. -/
def textTable (id feature : String) (storage : Storage) (rows : List Row) : Table :=
  ⟨[id, feature], [storage, .int64], rows⟩

/-- The inputs after coercion. -/
def textInputs (first second : ColumnType) : List Dataset :=
  [⟨"a.csv", ⟨["id"], ["x"], [], [first], [.int64], []⟩, ["id"], some Delimiter.comma⟩,
    ⟨"b.csv", ⟨["uid"], ["y"], [], [second], [.int64], []⟩, ["uid"], some Delimiter.comma⟩]

/-- All keys are numbers. -/
def numberFiles : FileTree := textFiles "id,x\n1.5,2\n" "uid,y\n 1.5,3\n"

theorem loads_numbers : textJob.Loads numberFiles (textInputs .float64 .float64)
    [textTable "id" "x" .float64 [[.float ⟨0x3FF8000000000000⟩, .int 2]],
      textTable "uid" "y" .float64 [[.float ⟨0x3FF8000000000000⟩, .int 3]]] where
  prepares := .cons ⟨⟨["id"], 1⟩, by unfold Dataset.PreparesTo; decide +kernel⟩
    (.cons ⟨⟨["uid"], 1⟩, by unfold Dataset.PreparesTo; decide +kernel⟩ .nil)
  merges := ⟨⟨["id", "uid"], ["x", "y"], [], [.float64, .float64], [.int64, .int64], []⟩,
    by decide⟩
  loads := .cons (by decide +kernel) (.cons (by decide +kernel) .nil)

/-- Records with the same number as their key are joined if all keys are numbers. -/
theorem run_matches_numbers :
    ∃ report, (∀ d ∈ textJob.datasets, d.TextKeyed) ∧
      (∀ count, textJob.shardCount twoShards numberFiles = .ok count → textJob.Plain count) ∧
      (∀ l, numberFiles.destination textJob.output.dataPath = .ok l →
        numberFiles.destination textJob.output.schemaPath ≠ .ok l) ∧
      (textJob.run twoShards .sequential .zero (.ofFiles numberFiles)).1 = .ok report ∧
      ∃ (inputs : List Dataset) (tables : List Table) (result output : Table) (rows : List Row),
        textJob.Loads numberFiles inputs tables ∧
        (textJob.run twoShards .sequential .zero (.ofFiles numberFiles)).2.files.read "out.csv" =
          .ok (outputText result.columns [output]) ∧
        List.Forall₂ (fun (p : Table × List String) row => p.1.HasRow p.2 row)
          (tables.zip [["1.5", "2"], [" 1.5", "3"]]) rows ∧
        ∃ r ∈ output.rows, joinTables (List.zipWith Table.only tables rows)
          (inputs.map Dataset.key) = .ok (result.only r) := by
  obtain ⟨report, -, -, hok, -, -⟩ := leaves_textJob loads_numbers
  refine ⟨report, textKeyed_textJob, fun count _ => plain_textJob count,
    destinations_textJob _ _, hok, ?_⟩
  obtain ⟨inputs, tables, result, output, hloads, -, hread, hall⟩ := run_matches textJob twoShards
    .sequential .zero (.ofFiles numberFiles) report textKeyed_textJob
    (fun count _ => plain_textJob count) (destinations_textJob _ _) hok
  obtain rfl := hloads.inputs_unique loads_numbers
  have hrecords : List.Forall₂ (fun (d : Dataset) cells => d.HasRecord numberFiles ["1.5"] cells)
      (textInputs .float64 .float64) [["1.5", "2"], [" 1.5", "3"]] :=
    .cons ⟨⟨["id", "x"], [.ok ["1.5", "2"]]⟩, [0], by decide +kernel⟩
      (.cons ⟨⟨["uid", "y"], [.ok [" 1.5", "3"]]⟩, [0], by decide +kernel⟩ .nil)
  have hcomparable : Comparable numberFiles (textInputs .float64 .float64) ["1.5"] := by
    refine ⟨[true], fun d hd => ?_, fun p hp _ => ?_⟩
    · rcases List.mem_pair.1 hd with rfl | rfl
      · exact ⟨⟨["id", "x"], [.ok ["1.5", "2"]]⟩, [0], by decide +kernel⟩
      · exact ⟨⟨["uid", "y"], [.ok [" 1.5", "3"]]⟩, [0], by decide +kernel⟩
    · rw [List.mem_singleton.1 hp]
      exact ⟨⟨0x3FF8000000000000⟩, by decide, by decide⟩
  obtain ⟨rows, hrows, hmatched, -⟩ := hall _ _ (by decide) hrecords
  exact ⟨_, tables, result, output, rows, hloads, hread, hrows, hmatched hcomparable⟩

/-- The keys of the first input are numbers, but not all of those of the second. -/
def mixedFiles : FileTree := textFiles "id,x\n1,2\n" "uid,y\n1,3\nn,4\n"

theorem loads_mixed : textJob.Loads mixedFiles (textInputs .float64 .text)
    [textTable "id" "x" .float64 [[.float ⟨0x3FF0000000000000⟩, .int 2]],
      textTable "uid" "y" .text [[.text "1", .int 3], [.text "n", .int 4]]] where
  prepares := .cons ⟨⟨["id"], 1⟩, by unfold Dataset.PreparesTo; decide +kernel⟩
    (.cons ⟨⟨[], 2⟩, by unfold Dataset.PreparesTo; decide +kernel⟩ .nil)
  merges := ⟨⟨["id", "uid"], ["x", "y"], [], [.float64, .text], [.int64, .int64], []⟩,
    by decide⟩
  loads := .cons (by decide +kernel) (.cons (by decide +kernel) .nil)

/-- Records with the same key text need not be joined: the first input has nothing but numbers in
its key column, and the second has something else in another record. -/
theorem run_unmatched :
    ∃ report, textJob.check = .ok () ∧ (∀ d ∈ textJob.datasets, d.TextKeyed) ∧
      (textJob.run twoShards .sequential .zero (.ofFiles mixedFiles)).1 = .ok report ∧
      List.Forall₂ (fun (d : Dataset) cells => d.HasRecord mixedFiles ["1"] cells) textJob.datasets
        [["1", "2"], ["1", "3"]] ∧
      (textJob.run twoShards .sequential .zero (.ofFiles mixedFiles)).2.files.read "out.csv" =
        .ok (Utf8.encode "id,x,uid,y\n") := by
  obtain ⟨report, result, places, hok, -, hleaves⟩ := leaves_textJob loads_mixed
  refine ⟨report, by decide, textKeyed_textJob, hok, ?_, ?_⟩
  · exact .cons ⟨⟨["id", "x"], [.ok ["1", "2"]]⟩, [0], by decide +kernel⟩
      (.cons ⟨⟨["uid", "y"], [.ok ["1", "3"], .ok ["n", "4"]]⟩, [0], by decide +kernel⟩ .nil)
  · have hresult : joinTables [textTable "id" "x" .float64 [[.float ⟨0x3FF0000000000000⟩, .int 2]],
        textTable "uid" "y" .text [[.text "1", .int 3], [.text "n", .int 4]]]
        (textJob.datasets.map Dataset.key) = .ok
          ((textTable "id" "x" .float64 [[.float ⟨0x3FF0000000000000⟩, .int 2]]).join
            (textTable "uid" "y" .text [[.text "1", .int 3], [.text "n", .int 4]]) [0] [0]) :=
      joinTables_eq_ok.2 ⟨rfl, rfl, _, ["id"], [(_, ["uid"])], [0], rfl, rfl, rfl⟩
    cases hleaves.joins.symm.trans hresult
    have hread := hleaves.reads
    have hrows : ((textTable "id" "x" .float64 [[.float ⟨0x3FF0000000000000⟩, .int 2]]).join
        (textTable "uid" "y" .text [[.text "1", .int 3], [.text "n", .int 4]]) [0] [0]).rows =
          [] := by
      rw [rows_join]
      decide
    unfold Table.byShard at hread
    rw [hrows, List.mergeSort_nil] at hread
    refine hread.trans (congrArg _ ?_)
    decide

end Equijoin
