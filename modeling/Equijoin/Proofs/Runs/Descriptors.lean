import Equijoin.Proofs.Runs.Refinement
import Equijoin.Proofs.Tables.Typing
import Equijoin.Proofs.Text.Headers

/-! # The descriptor of an output

The parts of a run have the same columns, and the descriptor of its output says of every column what
the joined tables of all shards say.

* `Dataset.KeepsHeader`: the delimiters with which headers are read alike from all files.
* `Dataset.SplitInto.alike`: the files of all shards of a dataset are loaded with the same columns.
* `Job.Worked.alike`: so are the joined tables of all shards.
* `Job.Worked.typed`: a column has in every joined table the storage that the merged schema gives it.
* `run_describes`: parts become an output, and the output has a descriptor that is true of it.
-/

set_option autoImplicit false

namespace Equijoin

open FileTree

/-! ## The columns of shard files -/

/-- With this delimiter the header of a dataset is read alike from the files of all shards: it is not
the byte that ends written lines, and if it is a carriage return, the columns are not called by a
mark, which is lost, and by nothing. -/
structure Dataset.KeepsHeader (d : Dataset) (delimiter : UInt8) : Prop where
  lineFeed : delimiter ≠ Csv.lineFeed
  mark : delimiter = Csv.carriageReturn →
    ¬ (String.ofList [Csv.mark] ∈ d.schema.names ∧ "" ∈ d.schema.names)

theorem Csv.Separates.keepsHeader {delimiter : UInt8} (h : Csv.Separates delimiter) (d : Dataset) :
    d.KeepsHeader delimiter where
  lineFeed := h.ne_lineFeed
  mark := by
    rintro rfl
    exact absurd h.terminator (by decide)

section Shards

variable {t after : FileTree} {d : Dataset} {delimiter : UInt8} {sheet : Csv.Sheet}
  {types : List ColumnType} {places : List Nat} {routed : List Routed} {count shard shard' i : Nat}
  {a b : Table} {dir : Scratch} {set : ShardSet} {path path' : FilePath}

theorem Dataset.Opened.header_cons (h : d.Opened t delimiter sheet types places)
    (hkey : d.key ≠ []) : sheet.header ≠ [] := by
  intro hnil
  obtain ⟨name, names, hcons⟩ := List.exists_cons_of_ne_nil hkey
  have hplaced := positions_eq_ok.1 h.placed
  rw [hcons] at hplaced
  obtain ⟨i, -, hi, -⟩ := List.forall₂_cons_left_iff.1 hplaced
  rw [hnil] at hi
  cases hi

/-- A shard file that can be loaded has the columns of a sheet with the names of the header. -/
theorem Dataset.Routes.rereads (h : d.Routes t delimiter count sheet types places routed)
    (hread : after.read path = .ok (shardText delimiter sheet.header routed shard))
    (hload : Table.load after path delimiter d.schema = .ok a) :
    ∃ records sheet', Csv.Rereads delimiter sheet.header records sheet' ∧
      a.columns = sheet'.header := by
  obtain ⟨sheet', hsheet, hload'⟩ := Table.load_eq_ok.1 hload
  obtain ⟨-, -, hcolumns, -⟩ := Table.ofSheet_eq_ok.1 hload'
  obtain ⟨text, htext, hsheet⟩ := readSheet_eq_ok.1 hsheet
  cases hread.symm.trans htext
  refine ⟨(routed.filter (·.shard == shard)).map Routed.cells, sheet', ?_, hcolumns⟩
  constructor
  · intro cells hcells
    obtain ⟨r, hr, rfl⟩ := List.mem_map.1 hcells
    exact width_of_readSheet h.read (h.cells_mem (List.mem_filter.1 hr).1)
  · rw [List.flatMap_map]
    exact hsheet
  · intro name
    rw [← hcolumns, Schema.names_of_load hload, ← Schema.names_of_resolve h.resolves]

/-- The files of all shards of a dataset are loaded with the same columns. -/
theorem Dataset.Routes.alike (h : d.Routes t delimiter count sheet types places routed)
    (hkeeps : d.KeepsHeader delimiter) (hkey : d.key ≠ [])
    (hread : after.read path = .ok (shardText delimiter sheet.header routed shard))
    (hread' : after.read path' = .ok (shardText delimiter sheet.header routed shard'))
    (ha : Table.load after path delimiter d.schema = .ok a)
    (hb : Table.load after path' delimiter d.schema = .ok b) : a.columns = b.columns := by
  have hnames : ∀ name, name ∈ sheet.header ↔ name ∈ d.schema.names := fun name =>
    Schema.names_of_resolve h.resolves
  obtain ⟨columns, hcolumns⟩ := Csv.header_alike hkeeps.lineFeed (h.header_cons hkey) (by
    rw [hnames, hnames]
    exact hkeeps.mark)
  obtain ⟨records, sheet₁, hsheet₁, ha⟩ := h.rereads hread ha
  obtain ⟨records', sheet₂, hsheet₂, hb⟩ := h.rereads hread' hb
  rw [ha, hb, hcolumns _ _ hsheet₁, hcolumns _ _ hsheet₂]

theorem Dataset.SplitInto.alike (h : d.SplitInto t after delimiter dir i count set)
    (hkeeps : 1 < count → d.KeepsHeader delimiter) (hkey : d.key ≠ [])
    (hshard : shard < count) (hshard' : shard' < count)
    (ha : Table.load after (set.file shard) set.delimiter d.schema = .ok a)
    (hb : Table.load after (set.file shard') set.delimiter d.schema = .ok b) :
    a.columns = b.columns := by
  rcases h with ⟨hcount, rfl⟩ | ⟨hcount, sheet, types, places, routed, hroutes, rfl, hreads⟩
  · obtain rfl : shard = shard' := by omega
    rw [Except.ok.inj (ha.symm.trans hb)]
  · have hfile : ∀ s, s < count → (shardFiles dir i count delimiter routed.length).file s =
        shardPath (.scratch dir) i s := by
      intro s hs
      simp [ShardSet.file, shardFiles, hs]
    rw [hfile shard hshard] at ha
    rw [hfile shard' hshard'] at hb
    exact hroutes.alike (hkeeps hcount) hkey (hreads shard hshard) (hreads shard' hshard') ha hb

end Shards

/-! ## Joined tables -/

/-- A delimiter that is found out keeps the header, and so does one that is given, if it may. -/
theorem Job.PreparedAs.keepsHeader {job : Job} {files : FileTree} {inputs : List Dataset}
    (h : job.PreparedAs files inputs)
    (hgiven : ∀ d ∈ job.datasets, ∀ b, d.delimiter = some b → d.KeepsHeader b) {d' : Dataset}
    (hd' : d' ∈ inputs) : d'.KeepsHeader d'.separator := by
  obtain ⟨d, hd, c, delimiter, sheet, types, places, hprepared⟩ := h.mem hd'
  have hkeeps : d.KeepsHeader delimiter := by
    rcases hprepared.mayUse with hsome | ⟨-, hfound⟩
    · exact hgiven d hd delimiter hsome
    · exact (separates_of_mem_candidates hfound).keepsHeader d
  rw [hprepared.result]
  refine ⟨hkeeps.lineFeed, fun hreturn => ?_⟩
  rw [Schema.names_promote]
  exact hkeeps.mark hreturn

namespace Job.Worked

variable {job : Job} {options : Options} {schedules : Schedules} {s : Session}
  {tables : List Table}

/-- The joined tables of all shards have the same columns. -/
theorem alike (w : job.Worked options schedules s) (hgiven : 1 < w.prepared.count →
      ∀ d ∈ job.datasets, ∀ b, d.delimiter = some b → d.KeepsHeader b)
    (htables : w.Tables tables) {a b : Table} (ha : a ∈ tables) (hb : b ∈ tables) :
    a.columns = b.columns := by
  have hprepared : job.PreparedAs s.files w.prepared.datasets := w.datasets_prepared
  obtain ⟨hlength, hsplit⟩ := sharding_values w.not_spelled w.splits
  obtain ⟨i, hi⟩ := List.mem_iff_getElem?.1 ha
  obtain ⟨j, hj⟩ := List.mem_iff_getElem?.1 hb
  have hi' : i < w.prepared.count := htables.1 ▸ (List.getElem?_eq_some_iff.1 hi).1
  have hj' : j < w.prepared.count := htables.1 ▸ (List.getElem?_eq_some_iff.1 hj).1
  obtain ⟨as, has, hjoin⟩ := htables.2 i a hi
  obtain ⟨bs, hbs, hjoin'⟩ := htables.2 j b hj
  have hkeys : (shardInputs w.prepared.datasets w.sets i).map ShardInput.key =
      (shardInputs w.prepared.datasets w.sets j).map ShardInput.key := by
    simp [shardInputs]
  rw [← hkeys] at hjoin'
  refine alike_joinTables (forall₂_of_getElem? ?_ fun n x y hx hy => ?_) hjoin hjoin'
  · rw [← has.length_eq, ← hbs.length_eq]
    simp [shardInputs]
  · obtain ⟨input, hinput, hload⟩ := getElem?_of_forall₂ has.flip hx
    obtain ⟨input', hinput', hload'⟩ := getElem?_of_forall₂ hbs.flip hy
    simp only [shardInputs, List.getElem?_map, Option.map_eq_some_iff] at hinput hinput'
    obtain ⟨⟨d, set⟩, hpair, rfl⟩ := hinput
    obtain ⟨⟨d', set'⟩, hpair', rfl⟩ := hinput'
    cases hpair.symm.trans hpair'
    obtain ⟨hd, hset⟩ := List.getElem?_zip_eq_some.1 hpair
    have hmem := List.mem_of_getElem? hd
    exact (hsplit n d set hd hset).alike (fun hcount => hprepared.keepsHeader (hgiven hcount) hmem)
      (hprepared.keyed w.checked hmem).1 hi' hj' hload hload'

/-- What holds of every table of an input, and of the join of two tables of which it holds, holds of
the joined tables of all shards. -/
theorem table_induction {P : Table → Prop} (w : job.Worked options schedules s)
    (hload : ∀ d ∈ w.prepared.datasets, ∀ path delimiter t,
      Table.load w.split.files path delimiter d.schema = .ok t → P t)
    (hjoin : ∀ (left right : Table) (leftKey rightKey : List Nat), P left → P right →
      P (left.join right leftKey rightKey))
    (htables : w.Tables tables) {table : Table} (htable : table ∈ tables) : P table := by
  obtain ⟨shard, hshard⟩ := List.mem_iff_getElem?.1 htable
  obtain ⟨parts, hparts, hjoined⟩ := htables.2 shard table hshard
  refine joinTables_induction (fun t ht => ?_) hjoin hjoined
  obtain ⟨input, hinput, hloaded⟩ := exists_left_of_forall₂ hparts ht
  have hschema : input.schema ∈ w.prepared.datasets.map Dataset.schema := by
    rw [← w.schemas_shardInputs shard]
    exact List.mem_map_of_mem hinput
  obtain ⟨d, hd, heq⟩ := List.mem_map.1 hschema
  exact hload d hd _ _ t (by rw [heq]; exact hloaded)

/-- A column has in every joined table the storage that the merged schema gives it, and its values
were read at this storage. -/
theorem typed (w : job.Worked options schedules s) (htables : w.Tables tables) {table : Table}
    (htable : table ∈ tables) :
    table.TypedBy w.prepared.merged.storageOf? ∧ table.CellsRead := by
  constructor
  · refine w.table_induction (fun d hd path delimiter t hload => ?_)
      (fun _ _ leftKey rightKey hl hr => hl.join hr leftKey rightKey) htables htable
    refine (typedBy_load hload).imp fun name storage hstorage => ?_
    have hname : name ∈ d.schema.names := Schema.mem_names_of_storageOf? hstorage
    rw [Schema.storageOf?_merge w.even w.merges (List.mem_map_of_mem hd) hname, hstorage]
  · exact w.table_induction (fun d _ path delimiter t hload => cellsRead_load hload)
      (fun _ _ leftKey rightKey hl hr => hl.join hr leftKey rightKey) htables htable

/-- A column of a joined table is declared by an input. -/
theorem declared (w : job.Worked options schedules s) (htables : w.Tables tables) {table : Table}
    (htable : table ∈ tables) {name : String} (hname : name ∈ table.columns) :
    ∃ d ∈ job.datasets, name ∈ d.schema.names := by
  have hprepared : job.PreparedAs s.files w.prepared.datasets := w.datasets_prepared
  obtain ⟨storage, -, hstorage⟩ := exists_right_of_forall₂ (w.typed htables htable).1 hname
  obtain ⟨schema, hschema, hname⟩ := (Schema.mem_names_merge w.even w.merges).1
    (Schema.mem_names_of_storageOf? hstorage)
  obtain ⟨d', hd', rfl⟩ := List.mem_map.1 hschema
  obtain ⟨d, hd, c, delimiter, sheet, types, places, h⟩ := hprepared.mem hd'
  rw [h.result, Schema.names_promote] at hname
  exact ⟨d, hd, hname⟩

/-- Joined tables have columns, as the keys of the inputs are not empty. -/
theorem columns_ne_nil (w : job.Worked options schedules s) (htables : w.Tables tables)
    {table : Table} (htable : table ∈ tables) : table.columns ≠ [] := by
  have hprepared : job.PreparedAs s.files w.prepared.datasets := w.datasets_prepared
  refine w.table_induction (P := fun t => t.columns ≠ [])
    (fun d hd path delimiter t hload hnil => ?_)
    (fun left right leftKey rightKey hl _ hnil => hl (List.append_eq_nil_iff.1 hnil).1)
    htables htable
  obtain ⟨hkey, hdeclared⟩ := hprepared.keyed w.checked hd
  obtain ⟨name, names, hcons⟩ := List.exists_cons_of_ne_nil hkey
  have hname := (Schema.names_of_load hload).2
    (hdeclared name (by rw [hcons]; exact List.mem_cons_self))
  rw [hnil] at hname
  cases hname

end Job.Worked

/-! ## Assembly -/

theorem partTexts_ne_unequal {files : FileTree} {columns : List String} {parts : List Part}
    (h : ∀ part ∈ parts, part.columns = columns) (index : Nat) (ps qs : List String) :
    partTexts files columns parts ≠ .error (.schema (.unequalParts index ps qs)) := by
  induction parts with
  | nil => exact fun he => nomatch he
  | cons part rest ih =>
    have hrest := ih fun p hp => h p (List.mem_cons_of_mem _ hp)
    have hmore : ∀ text : Bytes, (partTexts files columns rest >>= fun more => .ok (text ++ more)) ≠
        .error (.schema (.unequalParts index ps qs)) := by
      intro text he
      rcases bind_eq_error.1 he with he | ⟨more, -, he⟩
      · exact hrest he
      · cases he
    intro he
    rw [partTexts, if_neg (by simpa using h part List.mem_cons_self)] at he
    by_cases hrows : part.rows = 0
    · rw [if_pos hrows] at he
      exact hmore [] he
    · rw [if_neg hrows] at he
      rcases bind_eq_error.1 he with hread | ⟨text, -, he⟩
      · obtain ⟨fault, -, hfault⟩ := mapError_eq_error.1 hread
        cases hfault
      · exact hmore text he

/-- Parts with the same columns are not found to differ. -/
theorem assembleParts_ne_unequal {files : FileTree} {path : String} {parts : List Part}
    (h : ∀ p ∈ parts, ∀ q ∈ parts, p.columns = q.columns) (index : Nat) (ps qs : List String) :
    (assembleParts parts path files).1 ≠ .error (.schema (.unequalParts index ps qs)) := by
  have hassemble : assemble parts path files ≠ .error (.schema (.unequalParts index ps qs)) := by
    have hsorted : ∀ p, p ∈ parts.mergeSort (fun p q => p.index.ble q.index) ↔ p ∈ parts :=
      fun p => List.mem_mergeSort
    unfold assemble
    cases hparts : parts.mergeSort (fun p q => p.index.ble q.index) with
    | nil => exact fun he => nomatch he
    | cons first rest =>
      rw [hparts] at hsorted
      have hfirst := (hsorted first).1 List.mem_cons_self
      intro he
      rcases bind_eq_error.1 he with hstaged | ⟨staged, -, he⟩
      · obtain ⟨fault, -, hfault⟩ := mapError_eq_error.1 hstaged
        cases hfault
      · rcases bind_eq_error.1 he with htext | ⟨text, -, he⟩
        · rcases bind_eq_error.1 htext with htexts | ⟨more, -, he⟩
          · exact partTexts_ne_unequal (fun p hp => h p ((hsorted p).1 hp) first hfirst) _ _ _ htexts
          · cases he
        · cases he
  unfold assembleParts
  split
  · exact fun he => nomatch he
  · rename_i fault hfault
    intro he
    cases he
    exact hassemble hfault

/-- A run that comes to assembling its output finds no two shards with different columns, if its
datasets are not split or all given delimiters keep their headers. An output that it assembles has a
descriptor. This lists, group by group and in the order of the header, every column in the group of
its first declaration, as often as it is there, with the storage at which the joined tables of all
shards have read its values. -/
theorem run_describes {job : Job} {options : Options} {schedules : Schedules} {s : Session}
    (w : job.Worked options schedules s) :
    ((1 < w.prepared.count → ∀ d ∈ job.datasets, ∀ b, d.delimiter = some b → d.KeepsHeader b) →
      ∀ index columns columns', (assembleParts w.parts job.output.dataPath w.joined.files).1 ≠
        .error (.schema (.unequalParts index columns columns'))) ∧
    ∀ a files, assembleParts w.parts job.output.dataPath w.joined.files = (.ok a, files) →
      ∃ d tables, w.prepared.merged.reconcile a.columns = .ok d ∧ w.Tables tables ∧
        ∀ table ∈ tables, table.columns = a.columns ∧ table.CellsRead ∧
          ∀ group, (d.names group).length = (d.types group).length ∧
            d.names group = a.columns.filter
              (fun name => w.prepared.merged.groupOf? name = some group) ∧
            d.types group = ((a.columns.zip table.types).filter fun p =>
              w.prepared.merged.groupOf? p.1 = some group).map fun p => p.2.name := by
  obtain ⟨tables, htables, hstores⟩ := w.stores
  refine ⟨fun hgiven index columns columns' => ?_, fun a files hassemble => ?_⟩
  · refine assembleParts_ne_unequal (fun p hp q hq => ?_) _ _ _
    obtain ⟨t, ht, hpart⟩ := exists_right_of_forall₂ hstores hp
    obtain ⟨u, hu, hpart'⟩ := exists_right_of_forall₂ hstores hq
    rw [hpart.columns, hpart'.columns, w.alike hgiven htables ht hu]
  · obtain ⟨-, hnonempty, halike, -, -⟩ := (assembleParts_eq_ok w.indices hstores).1 hassemble
    obtain ⟨first, hfirst⟩ := List.exists_mem_of_ne_nil _ hnonempty
    obtain ⟨d, hd⟩ := w.reconciles htables hfirst
    rw [halike first hfirst] at hd
    refine ⟨d, tables, hd, htables, fun table htable => ?_⟩
    obtain ⟨htyped, hcells⟩ := w.typed htables htable
    refine ⟨halike table htable, hcells, fun group => ?_⟩
    unfold Table.TypedBy at htyped
    rw [halike table htable] at htyped
    obtain ⟨hnames, htypes⟩ := Schema.reconcile_lists hd htyped group
    exact ⟨Schema.reconcile_lengths hd group, hnames, htypes⟩

/-- Two inputs in two shards, whose output is assembled and described. -/
theorem run_describes_pair :
    ∃ (w : pairJob.Worked twoShards .sequential (.ofFiles pairFiles)) (a : Assembled)
      (files : FileTree) (d : Descriptor), w.prepared.count = 2 ∧
      (∀ d ∈ pairJob.datasets, ∀ b, d.delimiter = some b → d.KeepsHeader b) ∧
      assembleParts w.parts pairJob.output.dataPath w.joined.files = (.ok a, files) ∧
      w.prepared.merged.reconcile a.columns = .ok d ∧
      d.names .id = a.columns.filter fun name => w.prepared.merged.groupOf? name = some .id := by
  have hcheck : pairJob.check = .ok () := by decide
  have hcount : pairJob.shardCount twoShards pairFiles = .ok 2 := by decide
  obtain ⟨w, -⟩ : ∃ w : pairJob.Worked twoShards .sequential (.ofFiles pairFiles), _ :=
    worked_of_loads hcheck hcount (plain_pairJob 2) provided_pairJob loads_pairJob
  have htwo : w.prepared.count = 2 := Except.ok.inj (w.shardCount.symm.trans hcount)
  have hgiven : ∀ d ∈ pairJob.datasets, ∀ b, d.delimiter = some b → d.KeepsHeader b :=
    fun d hd b hb => ((plain_pairJob 2).separates (by omega) d hd b hb).keepsHeader d
  obtain ⟨tables, htables, hstores⟩ := w.stores
  have hne : tables ≠ [] := by
    rintro rfl
    have hlength := htables.1
    rw [htwo] at hlength
    cases hlength
  obtain ⟨first, hfirst⟩ := List.exists_mem_of_ne_nil _ hne
  obtain ⟨l, hl⟩ := (w.stagingPlace_iff _).2 provided_pairJob.staged
  have hassemble := (assembleParts_eq_ok w.indices hstores
    (a := ⟨first.columns, rowsOf tables, l⟩)).2 ⟨hl, hne, fun table htable =>
      w.alike (fun _ => hgiven) htables htable hfirst, rfl, rfl⟩
  obtain ⟨d, tables', hd, htables', hall⟩ := (run_describes w).2 _ _ hassemble
  obtain rfl := Job.Worked.Tables.unique htables htables'
  exact ⟨w, _, _, d, htwo, hgiven, hassemble, hd, ((hall first hfirst).2.2 .id).2.1⟩

/-! ## Shards with different columns -/

deriving instance DecidableEq for Job.Prepared
deriving instance DecidableEq for FileTree

/-- The delimiter of the first input is a line feed. -/
def lineJob : Job where
  datasets := [⟨"a.csv", ⟨["k", ""], [], [], [.text, .text], [], []⟩, ["k"], some Csv.lineFeed⟩,
    ⟨"b.csv", ⟨["id"], [], [], [.text], [], []⟩, ["id"], some Delimiter.comma⟩]
  output := ⟨"out.csv", "out.json"⟩

/-- Carriage returns end the records of the first input. -/
def lineFiles : FileTree :=
  (FileTree.empty.put [.given "a.csv"] (.file (Utf8.encode "k\n\rk\n\r"))).put
    [.given "b.csv"] (.file (Utf8.encode "id\n"))

/-- The scratch directory of such a run. -/
def lineDir : Scratch := ⟨[.root, .given "tmp", .fresh 0], 28⟩

/-- What the run has found out before it splits its inputs. Each shard file of the first one will be
all header, as line feeds end written records. -/
def linePrepared : Job.Prepared where
  count := 2
  datasets := [⟨"a.csv", ⟨["k", ""], [], [], [.text, .text], [], []⟩, ["k"], some Csv.lineFeed⟩,
    ⟨"b.csv", ⟨["id"], [], [], [.float64], [], []⟩, ["id"], some Delimiter.comma⟩]
  coercions := [⟨[], 1⟩, ⟨["id"], 0⟩]
  merged := ⟨["k", "", "id"], [], [], [.text, .text, .float64], [], []⟩

def lineSets : List ShardSet :=
  [shardFiles lineDir 0 2 Csv.lineFeed 1, shardFiles lineDir 1 2 Delimiter.comma 0]

/-- The session in which the inputs are split. -/
def lineReady : Session :=
  (lineJob.prepared twoShards [] ((Session.ofFiles lineFiles).begin lineJob)).2.withFiles
    (lineFiles.put lineDir.location .directory)

def lineSplit : Session :=
  (fanOut [] (shardingTasks 2 (.scratch lineDir) linePrepared.datasets) lineReady).2

def lineWorked : lineJob.Worked twoShards .sequential (.ofFiles lineFiles) where
  prepared := linePrepared
  ready := (lineJob.prepared twoShards [] ((Session.ofFiles lineFiles).begin lineJob)).2
  dir := lineDir
  files := lineFiles.put lineDir.location .directory
  sets := lineSets
  split := lineSplit
  parts := [⟨0, ["k", "", "", "id"], 0, partPath (.scratch lineDir) 0⟩,
    ⟨1, ["k", "", "k", "", "", "id"], 0, partPath (.scratch lineDir) 1⟩]
  joined := (fanOut [] (joiningTasks linePrepared.datasets lineSets (.scratch lineDir)
    (fun _ => .zero) 2) (lineSplit.admitting twoShards)).2
  prepares := Prod.ext (by decide +kernel) rfl
  creates := by decide +kernel
  splits := Prod.ext (by decide +kernel) rfl
  joins := Prod.ext (by decide +kernel) rfl

/-- Two shards of an input can have different columns, if its delimiter is a line feed: the run comes
to assembling its output and fails. -/
theorem run_unequal :
    ∃ w : lineJob.Worked twoShards .sequential (.ofFiles lineFiles),
      (assembleParts w.parts lineJob.output.dataPath w.joined.files).1 =
        .error (.schema (.unequalParts 1 ["k", "", "k", "", "", "id"] ["k", "", "", "id"])) ∧
      (lineJob.run twoShards .sequential .zero (.ofFiles lineFiles)).1 =
        .error (.schema (.unequalParts 1 ["k", "", "k", "", "", "id"] ["k", "", "", "id"])) := by
  have hassemble : assembleParts lineWorked.parts lineJob.output.dataPath lineWorked.joined.files =
      (.error (.schema (.unequalParts 1 ["k", "", "k", "", "", "id"] ["k", "", "", "id"])),
        lineWorked.joined.files) := by
    unfold assembleParts assemble
    rw [mergeSort_parts lineWorked.indices]
    decide +kernel
  refine ⟨lineWorked, by rw [hassemble], ?_⟩
  obtain ⟨v, hemit, -⟩ := emitOutput_of_error lineWorked.prepared.merged hassemble
  rw [run_eq, lineWorked.stages_eq hemit]
  exact (conclude_error _).2 rfl

end Equijoin
