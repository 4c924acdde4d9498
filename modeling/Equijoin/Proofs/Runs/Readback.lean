import Equijoin.Proofs.Runs.Descriptors
import Equijoin.Proofs.Runs.Matches
import Equijoin.Proofs.Tables.Readback

/-! # The output read back

The file and the descriptor of a run that succeeds are read as the joined table.

* `Table.Stacks`: the joined tables of all shards as one.
* `Job.Worked.stacks`: there is such a table, typed by the merged schema.
* `run_reads_back`: it is what is read, but for its NaNs.
-/

set_option autoImplicit false

namespace Equijoin

open FileTree

variable {job : Job} {options : Options} {schedules : Schedules} {s : Session}
  {tables : List Table}

/-- The rows of all tables, one table after the other; the tables have the same columns. -/
structure Table.Stacks (joined : Table) (tables : List Table) : Prop where
  columns : ∀ t ∈ tables, t.columns = joined.columns
  types : ∀ t ∈ tables, t.types = joined.types
  rows : joined.rows = tables.flatMap Table.rows

/-- The storages of a table that is typed by names depend on its columns only. -/
theorem Table.TypedBy.types_unique {storageOf? : String → Option Storage} {t u : Table}
    (ht : t.TypedBy storageOf?) (hu : u.TypedBy storageOf?) (h : t.columns = u.columns) :
    t.types = u.types := by
  unfold TypedBy at ht hu
  rw [h] at ht
  have hunique : Relator.RightUnique fun (name : String) storage =>
      storageOf? name = some storage := fun _ _ _ ha hb => Option.some.inj (ha.symm.trans hb)
  exact hunique.forall₂ ht hu

theorem outputText_eq {joined : Table} (h : joined.Stacks tables) :
    outputText joined.columns tables = Csv.writeLine Delimiter.comma joined.columns ++
      joined.cells.flatMap (Csv.writeLine Delimiter.comma) := by
  have hcells : joined.cells = tables.flatMap Table.cells := by
    unfold Table.cells
    rw [h.rows, List.map_flatMap]
  unfold outputText Table.lines
  rw [hcells, List.flatMap_assoc]

/-- The joined tables of all shards are one table, typed by the merged schema. -/
theorem Job.Worked.stacks (w : job.Worked options schedules s) (htables : w.Tables tables)
    (hne : tables ≠ []) {columns : List String} (halike : ∀ t ∈ tables, t.columns = columns) :
    ∃ joined : Table, joined.columns = columns ∧ joined.Stacks tables ∧
      joined.TypedBy w.prepared.merged.storageOf? ∧ joined.CellsRead ∧ joined.columns ≠ [] := by
  obtain ⟨first, hfirst⟩ := List.exists_mem_of_ne_nil _ hne
  obtain rfl : first.columns = columns := halike first hfirst
  have htyped := (w.typed htables hfirst).1
  have hcolumns := w.columns_ne_nil htables hfirst
  have htypes : ∀ t ∈ tables, t.types = first.types := fun t ht =>
    (w.typed htables ht).1.types_unique htyped (halike t ht)
  refine ⟨⟨first.columns, first.types, tables.flatMap Table.rows⟩, rfl, ⟨halike, htypes, rfl⟩,
    htyped, fun row hrow => ?_, hcolumns⟩
  obtain ⟨t, ht, hrow⟩ := List.mem_flatMap.1 hrow
  have hcells := (w.typed htables ht).2 row hrow
  rwa [htypes t ht] at hcells

/-- The descriptor of a run that succeeds is read as a schema with as many types as names, and the
output is read under this schema as the joined table of the run, but for its NaNs. Only a mark at
the beginning of the first name would be lost. -/
theorem run_reads_back {elapsed : Duration} {report : Report}
    (hdiff : ∀ l, s.files.destination job.output.dataPath = .ok l →
      s.files.destination job.output.schemaPath ≠ .ok l)
    (hreport : (job.run options schedules elapsed s).1 = .ok report) :
    ∃ (w : job.Worked options schedules s) (tables : List Table) (joined : Table)
      (content : Bytes) (text : String) (schema : Schema),
      w.Tables tables ∧ tables ≠ [] ∧ joined.Stacks tables ∧
      joined.rows.length = report.outputRows ∧
      (job.run options schedules elapsed s).2.files.read job.output.schemaPath = .ok content ∧
      Utf8.decode content = .ok text ∧ Schema.parse text = .ok schema ∧ schema.check = .ok () ∧
      ((∀ name ∈ joined.columns.head?, name.toList.head? ≠ some Csv.mark) →
        Table.load (job.run options schedules elapsed s).2.files job.output.dataPath
          Delimiter.comma schema = .ok joined.settled) := by
  obtain ⟨w, tables, columns, data, place, htables, -, hstageable, hrows, hdescriptor, hdata,
    hplace, hfiles⟩ := published_of_ok hreport
  obtain ⟨hread, hread'⟩ := reads_published (hdiff data hdata) hdata hplace hfiles
  obtain ⟨joined, rfl, hstacks, htyped, hcells, hcolumns⟩ :=
    w.stacks htables hstageable.nonempty hstageable.alike
  have hcount : joined.rows.length = report.outputRows := by
    rw [hstacks.rows]
    exact hrows
  refine ⟨w, tables, joined, _, _, w.prepared.merged.restated joined.columns joined.types, htables,
    hstageable.nonempty, hstacks, hcount, hread', Utf8.decode_encode _,
    Schema.parse_reconcile hdescriptor htyped, Schema.check_of_even (Schema.even_restated _ _ _),
    fun hmark => ?_⟩
  rw [outputText_eq hstacks] at hread
  have hload := Table.ofText_written htyped hcells hcolumns hmark
  unfold Table.ofText at hload
  unfold Table.load FileTree.readSheet
  rw [hread]
  exact hload

/-- The output of a run in two shards, with numbers as keys, is read back. -/
theorem run_reads_back_numbers :
    (∀ l, numberFiles.destination textJob.output.dataPath = .ok l →
      numberFiles.destination textJob.output.schemaPath ≠ .ok l) ∧
    ∃ (report : Report) (joined : Table) (schema : Schema),
      (textJob.run twoShards .sequential .zero (.ofFiles numberFiles)).1 = .ok report ∧
      joined.rows.length = report.outputRows ∧
      (∀ name ∈ joined.columns.head?, name.toList.head? ≠ some Csv.mark) ∧
      Table.load (textJob.run twoShards .sequential .zero (.ofFiles numberFiles)).2.files "out.csv"
        Delimiter.comma schema = .ok joined.settled := by
  obtain ⟨report, -, -, hok, -, -⟩ := leaves_textJob loads_numbers
  obtain ⟨w, tables, joined, content, text, schema, htables, hne, hstacks, hcount, -, -, -, -,
    hload⟩ := run_reads_back (destinations_textJob _ _) hok
  -- the names that the inputs declare begin with letters
  have hnames : ∀ d ∈ textJob.datasets, ∀ name ∈ d.schema.names,
      name.toList.head? ≠ some Csv.mark := by decide
  have hmark : ∀ name ∈ joined.columns.head?, name.toList.head? ≠ some Csv.mark := by
    intro name hname
    obtain ⟨first, hfirst⟩ := List.exists_mem_of_ne_nil _ hne
    have hmem : name ∈ first.columns := by
      rw [hstacks.columns first hfirst]
      exact List.mem_of_mem_head? hname
    obtain ⟨d, hd, hdeclared⟩ := w.declared htables hfirst hmem
    exact hnames d hd name hdeclared
  exact ⟨destinations_textJob _ _, report, joined, schema, hok, hcount, hmark, hload hmark⟩

end Equijoin
