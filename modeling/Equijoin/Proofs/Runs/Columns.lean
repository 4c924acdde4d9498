import Equijoin.Proofs.Runs.Accounting
import Equijoin.Proofs.Tables.Columns
import Equijoin.Proofs.Text.Widths

/-! # The columns of an output

The output of a run has the columns of all its inputs, but those that an input shares with the first
one as key columns only once. No two of them have the same name, unless a file has one twice.

* `Dataset.SplitInto.perm_columns`: a shard file is loaded with the columns of the whole file.
* `Job.Worked.perm_parts`: so are all parts of a shard.
* `Job.Combines`: the columns of an output, by the headers of its inputs.
* `Job.combines`: a join of parts with the columns of the inputs has such columns.
* `run_combines`: so has the output of a run that succeeds.
-/

set_option autoImplicit false

namespace Equijoin

open FileTree

variable {job : Job} {options : Options} {schedules : Schedules} {s : Session}
  {sheets : List Csv.Sheet}

/-! ## The columns of shard files -/

/-- A shard file is loaded with the columns of the whole file, in some order. -/
theorem Dataset.SplitInto.perm_columns {t after : FileTree} {d : Dataset} {delimiter : UInt8}
    {dir : Scratch} {i count shard : Nat} {set : ShardSet} {sheet : Csv.Sheet} {table : Table}
    (h : d.SplitInto t after delimiter dir i count set)
    (hsame : AgreeOn Location.Spelled t after)
    (hread : t.readSheet d.path delimiter = .ok sheet)
    (hfeed : 1 < count → delimiter ≠ Csv.lineFeed) (hkey : d.key ≠ [])
    (hdistinct : sheet.header.Nodup) (hshard : shard < count)
    (hload : Table.load after (set.file shard) set.delimiter d.schema = .ok table) :
    table.columns.Perm sheet.header := by
  obtain ⟨hcount, rfl⟩ | ⟨hcount, sheet', types, places, routed, hroutes, rfl, hreads⟩ := h
  · obtain rfl : shard = 0 := by omega
    -- a single shard is the file itself, which is as it was
    have hwhole : Table.load t d.path delimiter d.schema = .ok table := by
      rw [← hload]
      exact hsame.load (p := d.path) (fun l hl => hl) delimiter d.schema
    obtain ⟨sheet', hsheet, hload'⟩ := Table.load_eq_ok.1 hwhole
    obtain ⟨-, -, hcolumns, -⟩ := Table.ofSheet_eq_ok.1 hload'
    cases hsheet.symm.trans hread
    rw [hcolumns]
  · cases hroutes.read.symm.trans hread
    have hfile : (shardFiles dir i count delimiter routed.length).file shard =
        shardPath (.scratch dir) i shard := by
      simp [ShardSet.file, shardFiles, hshard]
    rw [hfile] at hload
    obtain ⟨records, sheet', hrereads, hcolumns⟩ := hroutes.rereads (hreads shard hshard) hload
    rw [hcolumns]
    exact hrereads.perm (hfeed hcount) (hroutes.header_cons hkey) hdistinct

/-- All parts of a shard have the columns of the files of their inputs, in some order. -/
theorem Job.Worked.perm_parts (w : job.Worked options schedules s)
    (hfeed : 1 < w.prepared.count → ∀ d ∈ job.datasets, d.delimiter ≠ some Csv.lineFeed)
    (hsheets : List.Forall₂ (Dataset.ReadAs s.files) job.datasets sheets)
    (hdistinct : ∀ sheet ∈ sheets, sheet.header.Nodup) {tables : List Table}
    (htables : w.Tables tables) {table : Table} (htable : table ∈ tables) :
    ∃ parts, joinTables parts (job.datasets.map Dataset.key) = .ok table ∧
      List.Forall₂ (fun (part : Table) (sheet : Csv.Sheet) => part.columns.Perm sheet.header)
        parts sheets := by
  have hprepared : job.PreparedAs s.files w.prepared.datasets := w.datasets_prepared
  obtain ⟨shard, hshard⟩ := List.mem_iff_getElem?.1 htable
  have hlt : shard < w.prepared.count := htables.1 ▸ (List.getElem?_eq_some_iff.1 hshard).1
  obtain ⟨parts, hparts, hjoin⟩ := htables.2 shard table hshard
  rw [keys_shardInputs w.sets_length, hprepared.keys] at hjoin
  refine ⟨parts, hjoin, forall₂_of_getElem? ?_ ?_⟩
  · rw [← hparts.length_eq, ← hsheets.length_eq, hprepared.length_eq]
    simp [shardInputs, w.sets_length]
  · intro n part sheet hpart hsheet
    obtain ⟨input, hinput, hload⟩ := getElem?_of_forall₂ hparts.flip hpart
    rw [getElem?_shardInputs, Option.map_eq_some_iff] at hinput
    obtain ⟨⟨d', set⟩, hpair, rfl⟩ := hinput
    obtain ⟨hd', hset⟩ := List.getElem?_zip_eq_some.1 hpair
    obtain ⟨d, done, hd, hone, hread⟩ := w.readSheet hsheets hd' hsheet
    apply (w.splitAll.2 n d' set hd' hset).perm_columns w.spelled_split hread _
      (hprepared.keyed w.checked (List.mem_of_getElem? hd')).1
      (hdistinct sheet (List.mem_of_getElem? hsheet)) hlt hload
    intro hcount
    obtain ⟨delimiter, sheet', types, places, hprepare⟩ := hone.prepared
    rw [hprepare.separator_eq]
    obtain hsome | ⟨-, hfound⟩ := hprepare.mayUse
    · rintro rfl
      exact hfeed hcount d (List.mem_of_getElem? hd) hsome
    · exact (separates_of_mem_candidates hfound).ne_lineFeed

/-! ## The columns of joins -/

theorem Dataset.ReadAs.names {files : FileTree} {d : Dataset} {sheet : Csv.Sheet}
    (h : d.ReadAs files sheet) (name : String) :
    name ∈ sheet.header ↔ name ∈ d.schema.names := by
  obtain ⟨d', done, hone, hread⟩ := h
  obtain ⟨delimiter, sheet', types, places, hprepare⟩ := hone.prepared
  cases hread.symm.trans hprepare.read
  exact Schema.names_of_resolve hprepare.scanned.resolves

/-- A column of the input of index `i` is left out: it is a key column named like the key column of
the first input at the same place. -/
def Job.LeavesOut (job : Job) (i : Nat) (name : String) : Prop :=
  0 < i ∧ ∃ d first, job.datasets[i]? = some d ∧ job.datasets[0]? = some first ∧
    Shares first.key d.key name

theorem Job.not_leavesOut_zero (name : String) : ¬ job.LeavesOut 0 name := by
  simp [LeavesOut]

theorem Job.leavesOut_succ {first d : Dataset} {i : Nat} (hfirst : job.datasets[0]? = some first)
    (hd : job.datasets[i + 1]? = some d) (name : String) :
    job.LeavesOut (i + 1) name ↔ Shares first.key d.key name := by
  simp [LeavesOut, hfirst, hd]

/-- The columns of an output. Input by input they are those of its header that are not left out, and
no two of them have the same name. -/
structure Job.Combines (job : Job) (sheets : List Csv.Sheet) (columns : List String) : Prop where
  distinct : columns.Nodup
  blocks : ∃ blocks : List (List String), columns = blocks.flatten ∧
    blocks.length = sheets.length ∧
    ∀ (i : Nat) (sheet : Csv.Sheet) (block : List String), sheets[i]? = some sheet →
      blocks[i]? = some block →
      ∀ name, name ∈ block ↔ name ∈ sheet.header ∧ ¬ job.LeavesOut i name

theorem Job.blocks_of_join {parts : List Table} {table : Table} (hchecked : job.Checked)
    (hdistinct : ∀ part ∈ parts, part.columns.Nodup)
    (hjoin : joinTables parts (job.datasets.map Dataset.key) = .ok table) :
    ∃ blocks : List (List String), table.columns = blocks.flatten ∧
      blocks.length = parts.length ∧ (∀ block ∈ blocks, block.Nodup) ∧
      ∀ (i : Nat) (part : Table) (block : List String), parts[i]? = some part →
        blocks[i]? = some block →
        ∀ name, name ∈ block ↔ name ∈ part.columns ∧ ¬ job.LeavesOut i name := by
  have hwidth : parts.length = job.datasets.length := by
    rw [(joinTables_eq_ok.1 hjoin).1, List.length_map]
  obtain ⟨dataset, datasets, hdatasets⟩ : ∃ dataset datasets, job.datasets = dataset :: datasets := by
    apply List.exists_cons_of_ne_nil
    intro hnil
    have hseveral := hchecked.several
    rw [hnil] at hseveral
    cases hseveral
  rw [hdatasets, List.map_cons] at hjoin
  obtain ⟨first, rest, added, rfl, hcolumns, hadded⟩ := columns_joinTables hdistinct hjoin
  have hlength : added.length = rest.length := by
    rw [← hadded.length_eq, List.length_zip, List.length_map]
    rw [hdatasets, List.length_cons, List.length_cons] at hwidth
    omega
  refine ⟨first.columns :: added, hcolumns, by simp [hlength], ?_, ?_⟩
  · intro block hblock
    obtain rfl | hblock := List.mem_cons.1 hblock
    · exact hdistinct first List.mem_cons_self
    · obtain ⟨p, -, hadds⟩ := exists_left_of_forall₂ hadded hblock
      exact hadds.nodup
  · intro i part block hpart hblock name
    cases i with
    | zero =>
      cases hpart
      cases hblock
      simp [not_leavesOut_zero]
    | succ i =>
      obtain ⟨p, hp, hadds⟩ := getElem?_of_forall₂ hadded.flip hblock
      obtain ⟨hright, hkey⟩ := List.getElem?_zip_eq_some.1 hp
      cases hright.symm.trans hpart
      rw [List.getElem?_map, Option.map_eq_some_iff] at hkey
      obtain ⟨d, hd, hkey⟩ := hkey
      have hfirst : job.datasets[0]? = some dataset := by rw [hdatasets]; rfl
      have hd' : job.datasets[i + 1]? = some d := by rw [hdatasets]; exact hd
      rw [hadds.mem, leavesOut_succ hfirst hd', hkey]

/-- A later input has a name of an earlier one only as a key column, which is left out. -/
theorem Job.nodup_blocks {blocks : List (List String)} (hcheck : job.check = .ok ())
    (hnames : List.Forall₂ (fun (d : Dataset) (sheet : Csv.Sheet) =>
      ∀ name, name ∈ sheet.header ↔ name ∈ d.schema.names) job.datasets sheets)
    (hlength : blocks.length = sheets.length) (hnodup : ∀ block ∈ blocks, block.Nodup)
    (hmem : ∀ (i : Nat) (sheet : Csv.Sheet) (block : List String), sheets[i]? = some sheet →
      blocks[i]? = some block →
      ∀ name, name ∈ block ↔ name ∈ sheet.header ∧ ¬ job.LeavesOut i name) :
    blocks.flatten.Nodup := by
  rw [List.nodup_flatten]
  refine ⟨hnodup, List.pairwise_iff_getElem.2 ?_⟩
  intro j i hj hi hlt name hname hname'
  have hsheet : ∀ k, k < blocks.length → ∃ sheet, sheets[k]? = some sheet := by
    intro k hk
    rw [hlength] at hk
    exact ⟨_, List.getElem?_eq_getElem hk⟩
  obtain ⟨x, hx⟩ := hsheet j hj
  obtain ⟨y, hy⟩ := hsheet i hi
  obtain ⟨hearlier, -⟩ := (hmem j x _ hx (List.getElem?_eq_getElem hj) name).1 hname
  obtain ⟨hlater, hown⟩ := (hmem i y _ hy (List.getElem?_eq_getElem hi) name).1 hname'
  obtain ⟨e, he, hdeclares⟩ := getElem?_of_forall₂ hnames.flip hx
  obtain ⟨d, hd, hdeclares'⟩ := getElem?_of_forall₂ hnames.flip hy
  obtain ⟨first, hfirst⟩ : ∃ first, job.datasets[0]? = some first :=
    ⟨_, List.getElem?_eq_getElem (Nat.zero_lt_of_lt (List.getElem?_eq_some_iff.1 hd).1)⟩
  refine apart hcheck hfirst hd he hlt ((hdeclares' name).1 hlater) ?_ ((hdeclares name).1 hearlier)
  exact fun hshares => hown ⟨by omega, d, first, hd, hfirst, hshares⟩

/-- A join of parts with the columns of the inputs has no two columns of the same name. -/
theorem Job.combines {parts : List Table} {table : Table} (hcheck : job.check = .ok ())
    (hnames : List.Forall₂ (fun (d : Dataset) (sheet : Csv.Sheet) =>
      ∀ name, name ∈ sheet.header ↔ name ∈ d.schema.names) job.datasets sheets)
    (hdistinct : ∀ sheet ∈ sheets, sheet.header.Nodup)
    (hparts : List.Forall₂ (fun (part : Table) (sheet : Csv.Sheet) =>
      part.columns.Perm sheet.header) parts sheets)
    (hjoin : joinTables parts (job.datasets.map Dataset.key) = .ok table) :
    job.Combines sheets table.columns := by
  have hpart : ∀ part ∈ parts, part.columns.Nodup := by
    intro part hmem
    obtain ⟨sheet, hsheet, hperm⟩ := exists_right_of_forall₂ hparts hmem
    exact hperm.nodup_iff.2 (hdistinct sheet hsheet)
  obtain ⟨blocks, hcolumns, hlength, hnodup, hmem⟩ :=
    blocks_of_join (checked hcheck) hpart hjoin
  rw [hparts.length_eq] at hlength
  have hmem' : ∀ (i : Nat) (sheet : Csv.Sheet) (block : List String), sheets[i]? = some sheet →
      blocks[i]? = some block →
      ∀ name, name ∈ block ↔ name ∈ sheet.header ∧ ¬ job.LeavesOut i name := by
    intro i sheet block hsheet hblock name
    obtain ⟨part, hat, hperm⟩ := getElem?_of_forall₂ hparts.flip hsheet
    rw [hmem i part block hat hblock, hperm.mem_iff]
  refine ⟨?_, blocks, hcolumns, hlength, hmem'⟩
  rw [hcolumns]
  exact nodup_blocks hcheck hnames hlength hnodup hmem'

/-! ## Outputs -/

/-- An output with these columns has been put in its place, below the line of their names. -/
def Job.Heads (job : Job) (files after : FileTree) (columns : List String) : Prop :=
  ∃ (rows descriptor : Bytes) (data schema : Location),
    files.destination job.output.dataPath = .ok data ∧
    files.destination job.output.schemaPath = .ok schema ∧
    Same ((files.put data (.file (Csv.writeLine Delimiter.comma columns ++ rows))).put schema
      (.file descriptor)) after ∧
    (schema ≠ data → after.read job.output.dataPath =
      .ok (Csv.writeLine Delimiter.comma columns ++ rows))

/-- A run that succeeds has put an output in its place that has no two columns of the same name, and
all columns of its inputs, but for the key columns of an input that are named like the one of the
first input at the same place. No file may have two columns of the same name, and none that is split
be written with line feeds as delimiters. -/
theorem run_combines {elapsed : Duration} {report : Report}
    (hreport : (job.run options schedules elapsed s).1 = .ok report)
    (hfeed : 1 < report.shardCount → ∀ d ∈ job.datasets, d.delimiter ≠ some Csv.lineFeed)
    (hsheets : List.Forall₂ (Dataset.ReadAs s.files) job.datasets sheets)
    (hdistinct : ∀ sheet ∈ sheets, sheet.header.Nodup) :
    ∃ columns, job.Heads s.files (job.run options schedules elapsed s).2.files columns ∧
      job.Combines sheets columns := by
  obtain ⟨w, tables, columns, data, schema, htables, hcount, hstageable, -, -, hdata, hschema,
    hfiles⟩ := published_of_ok hreport
  have hshards : report.shardCount = w.prepared.count := hcount.symm.trans htables.1
  refine ⟨columns, ⟨_, _, data, schema, hdata, hschema, hfiles, ?_⟩, ?_⟩
  · exact fun hne => read_published hne hdata hschema hfiles
  · obtain ⟨table, htable⟩ := List.exists_mem_of_ne_nil _ hstageable.nonempty
    rw [← hstageable.alike table htable]
    rw [hshards] at hfeed
    obtain ⟨parts, hjoin, hparts⟩ := w.perm_parts hfeed hsheets hdistinct htables htable
    exact Job.combines w.check (hsheets.imp fun d sheet h => h.names) hdistinct hparts hjoin

def pairSheets : List Csv.Sheet :=
  [⟨["id", "x"], [.ok ["1", "2"], .ok ["1", "4"]]⟩, ⟨["id", "y"], [.ok ["3", "5"], .ok ["1", "6"]]⟩]

/-- Two inputs in two shards have the same key column, and the second one leaves it out. -/
theorem run_combines_pair :
    ∃ report, (pairJob.run twoShards .sequential .zero (.ofFiles pairFiles)).1 = .ok report ∧
      report.shardCount = 2 ∧
      (1 < report.shardCount → ∀ d ∈ pairJob.datasets, d.delimiter ≠ some Csv.lineFeed) ∧
      List.Forall₂ (Dataset.ReadAs pairFiles) pairJob.datasets pairSheets ∧
      (∀ sheet ∈ pairSheets, sheet.header.Nodup) ∧ pairJob.LeavesOut 1 "id" ∧
      ∃ columns, pairJob.Heads pairFiles
          (pairJob.run twoShards .sequential .zero (.ofFiles pairFiles)).2.files columns ∧
        pairJob.Combines pairSheets columns := by
  have hcount : pairJob.shardCount twoShards pairFiles = .ok 2 := by decide
  have hdiff : ∀ l, pairFiles.destination pairJob.output.dataPath = .ok l →
      pairFiles.destination pairJob.output.schemaPath ≠ .ok l := by
    have hdata : pairFiles.destination pairJob.output.dataPath = .ok [.given "out.csv"] := by
      decide
    intro l hl
    cases hdata.symm.trans hl
    decide
  obtain ⟨report, -, -, hok, htwo, -⟩ : ∃ report result places,
      (pairJob.run twoShards .sequential .zero (.ofFiles pairFiles)).1 = .ok report ∧
      report.shardCount = 2 ∧ pairJob.Leaves _ _ _ _ _ _ result places :=
    loads_pairJob.leaves (by decide) hcount (by decide) (plain_pairJob 2) hdiff provided_pairJob
  have hfeed : ∀ d ∈ pairJob.datasets, d.delimiter ≠ some Csv.lineFeed := by decide
  have hsheets : List.Forall₂ (Dataset.ReadAs pairFiles) pairJob.datasets pairSheets := by
    obtain ⟨⟨done, hfirst⟩, hrest⟩ := List.forall₂_cons.1 loads_pairJob.prepares
    obtain ⟨⟨done', hsecond⟩, -⟩ := List.forall₂_cons.1 hrest
    exact .cons ⟨_, _, hfirst, by decide +kernel⟩ (.cons ⟨_, _, hsecond, by decide +kernel⟩ .nil)
  have hdistinct : ∀ sheet ∈ pairSheets, sheet.header.Nodup := by
    unfold pairSheets
    decide
  refine ⟨report, hok, htwo, fun _ => hfeed, hsheets, hdistinct, ?_, ?_⟩
  · exact ⟨by decide, _, _, rfl, rfl, 0, rfl, rfl⟩
  · exact run_combines hok (fun _ => hfeed) hsheets hdistinct

/-! ## Outputs with a column twice -/

/-- A run whose parts have the same columns succeeds with an output of these columns, if that can
take its places. -/
theorem Job.Worked.heads (w : job.Worked options schedules s) (elapsed : Duration)
    {columns : List String} (hne : w.parts ≠ [])
    (hcolumns : ∀ part ∈ w.parts, part.columns = columns)
    (hplace : ∃ l, s.files.stagingPlace job.output.dataPath = .ok l)
    (hpublishable : ∃ data, Publishable s.files job.output data)
    (hschema : ∃ l, s.files.destination job.output.schemaPath = .ok l) :
    (∃ report, (job.run options schedules elapsed s).1 = .ok report) ∧
      job.Heads s.files (job.run options schedules elapsed s).2.files columns := by
  obtain ⟨tables, htables, hstores⟩ := w.stores
  have hstageable : Stageable s.files job.output columns tables := by
    refine ⟨hplace, ?_, ?_⟩
    · rintro rfl
      exact hne (List.forall₂_nil_right_iff.1 hstores)
    · intro table htable
      obtain ⟨part, hpart, hstore⟩ := exists_left_of_forall₂ hstores htable
      rw [← hstore.columns, hcolumns part hpart]
  obtain ⟨data, hdata⟩ := hpublishable
  obtain ⟨l, hl⟩ := hschema
  obtain ⟨fault, v, -, -, hnot⟩ | ⟨fault, v, columns', data', -, -, -, hnot, -⟩ |
    ⟨v, columns', data', schema, d, hstages, hstageable', hdata', hschema', -, hfiles⟩ :=
      w.ends htables
  · exact absurd hdata (hnot columns hstageable data)
  · exact absurd hl (hnot l)
  · obtain ⟨table, htable⟩ := List.exists_mem_of_ne_nil _ hstageable.nonempty
    obtain rfl : columns' = columns :=
      (hstageable'.alike table htable).symm.trans (hstageable.alike table htable)
    rw [run_eq, conclude_files, hstages]
    exact ⟨⟨_, rfl⟩, _, _, data', schema, hdata'.place, hschema', hfiles,
      fun hne' => read_published hne' hdata'.place hschema' hfiles⟩

/-- The file of the second input has a column twice. -/
def twiceFiles : FileTree :=
  (FileTree.empty.put [.given "a.csv"] (.file (Utf8.encode "id,x\n"))).put
    [.given "b.csv"] (.file (Utf8.encode "id,id,y\n"))

/-- The header of the first input ends in a carriage return, and no record follows. -/
def bareFiles : FileTree :=
  (FileTree.empty.put [.given "a.csv"] (.file (Utf8.encode "k\n\r"))).put
    [.given "b.csv"] (.file (Utf8.encode "id\n"))

/-- What a run has found out before it splits these inputs. -/
def barePrepared : Job.Prepared where
  count := 2
  datasets := [⟨"a.csv", ⟨["k", ""], [], [], [.float64, .text], [], []⟩, ["k"], some Csv.lineFeed⟩,
    ⟨"b.csv", ⟨["id"], [], [], [.float64], [], []⟩, ["id"], some Delimiter.comma⟩]
  coercions := [⟨["k"], 0⟩, ⟨["id"], 0⟩]
  merged := ⟨["k", "", "id"], [], [], [.float64, .text, .float64], [], []⟩

def bareSets : List ShardSet :=
  [shardFiles lineDir 0 2 Csv.lineFeed 0, shardFiles lineDir 1 2 Delimiter.comma 0]

def bareReady : Session :=
  (lineJob.prepared twoShards [] ((Session.ofFiles bareFiles).begin lineJob)).2

def bareSplit : Session :=
  (fanOut [] (shardingTasks 2 (.scratch lineDir) barePrepared.datasets)
    (bareReady.withFiles (bareFiles.put lineDir.location .directory))).2

/-- In the shards the line feed that ends the header is a delimiter, too. -/
def bareWorked : lineJob.Worked twoShards .sequential (.ofFiles bareFiles) where
  prepared := barePrepared
  ready := bareReady
  dir := lineDir
  files := bareFiles.put lineDir.location .directory
  sets := bareSets
  split := bareSplit
  parts := [⟨0, ["k", "", "", "id"], 0, partPath (.scratch lineDir) 0⟩,
    ⟨1, ["k", "", "", "id"], 0, partPath (.scratch lineDir) 1⟩]
  joined := (fanOut [] (joiningTasks barePrepared.datasets bareSets (.scratch lineDir)
    (fun _ => .zero) 2) (bareSplit.admitting twoShards)).2
  prepares := Prod.ext (by decide +kernel) rfl
  creates := by decide +kernel
  splits := Prod.ext (by decide +kernel) rfl
  joins := Prod.ext (by decide +kernel) rfl

/-- An output can have a column twice: if a file has, or if the header of a file that is split is
read with one more column, as line feeds are its delimiters. -/
theorem run_repeats :
    (∃ report, (pairJob.run oneShard .sequential .zero (.ofFiles twiceFiles)).1 = .ok report) ∧
    (∃ rows, (pairJob.run oneShard .sequential .zero (.ofFiles twiceFiles)).2.files.read "out.csv" =
      .ok (Csv.writeLine Delimiter.comma ["id", "x", "id", "y"] ++ rows)) ∧
    ¬ ["id", "x", "id", "y"].Nodup ∧
    (∃ report, (lineJob.run twoShards .sequential .zero (.ofFiles bareFiles)).1 = .ok report) ∧
    (∃ rows, (lineJob.run twoShards .sequential .zero (.ofFiles bareFiles)).2.files.read "out.csv" =
      .ok (Csv.writeLine Delimiter.comma ["k", "", "", "id"] ++ rows)) ∧
    ¬ ["k", "", "", "id"].Nodup := by
  have hok : (pairJob.run oneShard .sequential .zero (.ofFiles twiceFiles)).1.map
      Report.outputRows = .ok 0 := by decide +kernel
  obtain ⟨report, hreport, -⟩ := map_eq_ok.1 hok
  have hread : (pairJob.run oneShard .sequential .zero (.ofFiles twiceFiles)).2.files.read
      "out.csv" = .ok (Csv.writeLine Delimiter.comma ["id", "x", "id", "y"] ++ []) := by
    decide +kernel
  have hcolumns : ∀ part ∈ bareWorked.parts, part.columns = ["k", "", "", "id"] := by decide
  obtain ⟨hreport', rows, descriptor, data, schema, hdata, hschema, -, hread'⟩ :=
    bareWorked.heads .zero (List.cons_ne_nil _ _) hcolumns ⟨[.fresh 0], by decide⟩
      ⟨[.given "out.csv"], by decide, [.fresh 0], by decide⟩ ⟨[.given "out.json"], by decide⟩
  have hdiff : schema ≠ data := by
    have hplace : bareFiles.destination lineJob.output.dataPath = .ok [.given "out.csv"] := by
      decide
    have hplace' : bareFiles.destination lineJob.output.schemaPath = .ok [.given "out.json"] := by
      decide
    cases hplace.symm.trans hdata
    cases hplace'.symm.trans hschema
    decide
  exact ⟨⟨report, hreport⟩, ⟨[], hread⟩, by decide, hreport', ⟨rows, hread' hdiff⟩, by decide⟩

end Equijoin
