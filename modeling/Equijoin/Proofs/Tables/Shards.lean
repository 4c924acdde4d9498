import Equijoin.Proofs.Stages.Joining
import Equijoin.Proofs.Text.Records

/-! # Tables in shards

The files into which a dataset is split hold the parts of its table, and the rows of all parts are
those of the table in the order of their shards.

* `holds_keyColumns`: the key by which a record is routed is the key of its row.
* `Dataset.Rewritable`: the file of a dataset can be written again as it was read, if it is split.
* `Dataset.SplitInto.load`: a shard file holds the part of the table in that shard.
* `Dataset.SplitInto.whole`: if all shard files can be loaded, so can the file of the dataset.
* `rows_byShard`: the rows of all parts.
-/

set_option autoImplicit false

namespace Equijoin

open FileTree

/-! ## Keys of records and of rows -/

section Keys

variable {header : List String} {types : List ColumnType} {places : List Nat}
  {cells : List String} {row : Row}

theorem length_columnsOf (htypes : types.length = header.length) :
    (Table.columnsOf header types).length = header.length := by
  rw [Table.columnsOf, List.length_zip, List.length_map, htypes, Nat.min_self]

theorem length_row (htypes : types.length = header.length) (hcells : cells.length = header.length)
    (h : Table.Holds (Table.columnsOf header types) cells row) : row.length = header.length := by
  rw [← h.length_eq, List.length_zip, length_columnsOf htypes, hcells, Nat.min_self]

theorem holds_at (htypes : types.length = header.length) (hcells : cells.length = header.length)
    (h : Table.Holds (Table.columnsOf header types) cells row) {i : Nat} (hi : i < header.length) :
    ∃ v, row[i]? = some v ∧
      Value.ofCell ((types[i]?).getD .text).storage ((cells[i]?).getD "") = .ok v := by
  have hrow : i < row.length := by rw [length_row htypes hcells h]; exact hi
  have hzip : i < ((Table.columnsOf header types).zip cells).length := by rw [h.length_eq]; exact hrow
  refine ⟨row[i], List.getElem?_eq_getElem hrow, ?_⟩
  have hcell := (List.forall₂_iff_get.1 h).2 i hzip hrow
  have hi' : i < types.length := by rw [htypes]; exact hi
  have hi'' : i < cells.length := by rw [hcells]; exact hi
  have htype : types[i]? = some types[i] := List.getElem?_eq_getElem hi'
  have hraw : cells[i]? = some cells[i] := List.getElem?_eq_getElem hi''
  simpa [Table.columnsOf, htype, hraw] using hcell

/-- The key by which a record is routed is the key of its row. -/
theorem holds_keyColumns (htypes : types.length = header.length)
    (hcells : cells.length = header.length)
    (h : Table.Holds (Table.columnsOf header types) cells row)
    (hplaces : ∀ i ∈ places, i < header.length) {key : Key} :
    List.Forall₂ (KeyColumn.Holds cells) (keyColumns header types places) key ↔
      key = Key.ofRow row places := by
  unfold keyColumns Key.ofRow
  induction places generalizing key with
  | nil => simp
  | cons i places ih =>
    have hrest := @ih fun j hj => hplaces j (by simp [hj])
    obtain ⟨v, hv, hcell⟩ := holds_at htypes hcells h (hplaces i (by simp))
    rw [List.map_cons, List.map_cons, List.forall₂_cons_left_iff]
    simp only [hrest, KeyColumn.Holds, hcell, hv, Option.map_some, Option.getD_some,
      Except.ok.injEq, exists_eq_left']
    constructor
    · rintro ⟨a, as, rfl, rfl, rfl⟩
      rfl
    · rintro rfl
      exact ⟨_, _, rfl, rfl, rfl⟩

end Keys

/-! ## Shard files -/

/-- The file of a dataset can be split into so many shards: if it is written again, its delimiter has
no other meaning, and no column name is taken for a byte order mark. -/
structure Dataset.Rewritable (d : Dataset) (delimiter : UInt8) (count : Nat) : Prop where
  separates : 1 < count → Csv.Separates delimiter
  keyed : d.key ≠ []
  declared : ∀ name ∈ d.key, name ∈ d.schema.names
  unmarked : 1 < count → ∀ name ∈ d.schema.names, name.toList.head? ≠ some Csv.mark

/-- The record of the row goes to the shard of its key. -/
def Routed.Fits (header : List String) (types : List ColumnType) (places : List Nat) (count : Nat)
    (r : Routed) (row : Row) : Prop :=
  Table.Holds (Table.columnsOf header types) r.cells row ∧
    r.shard = (Key.ofRow row places).shard count

variable {t after : FileTree} {d : Dataset} {delimiter : UInt8} {sheet : Csv.Sheet}
  {types : List ColumnType} {places : List Nat} {routed : List Routed} {count shard i : Nat}
  {table : Table} {dir : Scratch} {set : ShardSet}

theorem width_of_readSheet {path : FilePath} (h : t.readSheet path delimiter = .ok sheet)
    {cells : List String} (hcells : .ok cells ∈ sheet.records) :
    cells.length = sheet.header.length := by
  obtain ⟨text, -, hread⟩ := readSheet_eq_ok.1 h
  exact Csv.length_of_read hread hcells

theorem positions_lt_length {columns key : List String} (h : positions columns key = .ok places)
    (i : Nat) (hi : i ∈ places) : i < columns.length :=
  positions_lt (t := ⟨columns, [], []⟩) (mapError_eq_ok.2 h) i hi

theorem positions_ok {columns key : List String} (h : ∀ name ∈ key, name ∈ columns) :
    ∃ places, positions columns key = .ok places := by
  induction key with
  | nil => exact ⟨[], rfl⟩
  | cons name key ih =>
    obtain ⟨places, hplaces⟩ := ih fun n hn => h n (by simp [hn])
    obtain ⟨i, hi⟩ := Option.isSome_iff_exists.1 (List.isSome_idxOf?.2 (h name (by simp)))
    exact ⟨i :: places, positions_eq_ok.2 (.cons hi (positions_eq_ok.1 hplaces))⟩

theorem opened_of_load (hd : ∀ name ∈ d.key, name ∈ d.schema.names)
    (h : Table.load t d.path delimiter d.schema = .ok table) :
    ∃ sheet types places, d.Opened t delimiter sheet types places ∧
      table.columns = sheet.header ∧ table.types = types.map ColumnType.storage ∧
      table.positions d.key = .ok places ∧
      List.Forall₂ (Table.Reads (Table.columnsOf sheet.header types)) sheet.records table.rows := by
  obtain ⟨sheet, hread, hsheet⟩ := Table.load_eq_ok.1 h
  obtain ⟨types, htypes, hcolumns, hstorages, hrows⟩ := Table.ofSheet_eq_ok.1 hsheet
  obtain ⟨places, hplaces⟩ : ∃ places, positions sheet.header d.key = .ok places :=
    positions_ok fun name hname => (Schema.names_of_resolve htypes).2 (hd name hname)
  refine ⟨sheet, types, places, ⟨hread, htypes, hplaces⟩, hcolumns, hstorages, ?_, hrows⟩
  unfold Table.positions
  rw [hcolumns, hplaces]
  rfl

theorem rectangular_load {path : FilePath} {schema : Schema}
    (h : Table.load t path delimiter schema = .ok table) : table.Rectangular := by
  obtain ⟨sheet, hread, hsheet⟩ := Table.load_eq_ok.1 h
  obtain ⟨types, htypes, hcolumns, hstorages, hrows⟩ := Table.ofSheet_eq_ok.1 hsheet
  have hlength := length_resolve htypes
  refine ⟨by rw [hstorages, hcolumns, List.length_map, hlength], fun row hrow => ?_⟩
  obtain ⟨record, hmem, cells, rfl, hholds⟩ := exists_left_of_forall₂ hrows hrow
  rw [hcolumns]
  exact length_row hlength (width_of_readSheet hread hmem) hholds

theorem shardOf_one (table : Table) (places : List Nat) : table.shardOf places 1 0 = table := by
  have hrows : (table.rows.filter fun row => (Key.ofRow row places).shard 1 == 0) = table.rows :=
    List.filter_eq_self.2 fun row _ => by simp [Key.shard, Nat.mod_one]
  unfold Table.shardOf
  rw [hrows]

namespace Dataset

theorem Opened.header_ne_nil (h : d.Opened t delimiter sheet types places)
    (hd : d.Rewritable delimiter count) : sheet.header ≠ [] := by
  intro hnil
  obtain ⟨name, hname⟩ := List.exists_mem_of_ne_nil _ hd.keyed
  have hmem := (Schema.names_of_resolve h.resolves).2 (hd.declared name hname)
  rw [hnil] at hmem
  cases hmem

theorem Opened.routed_iff (h : d.Opened t delimiter sheet types places) {cells : List String}
    (hcells : .ok cells ∈ sheet.records) {row : Row}
    (hrow : Table.Holds (Table.columnsOf sheet.header types) cells row) {r : Routed} :
    Routed.Of (keyColumns sheet.header types places) count (.ok cells) r ↔
      r.cells = cells ∧ r.shard = (Key.ofRow row places).shard count := by
  have hkeys : ∀ {key : Key}, _ ↔ key = _ := holds_keyColumns (length_resolve h.resolves)
    (width_of_readSheet h.read hcells) hrow (positions_lt_length h.placed)
  unfold Routed.Of
  constructor
  · rintro ⟨hr, key, hkey, hshard⟩
    cases hr
    exact ⟨rfl, by rw [hshard, hkeys.1 hkey]⟩
  · rintro ⟨rfl, hshard⟩
    exact ⟨rfl, _, hkeys.2 rfl, hshard⟩

theorem Opened.routes (h : d.Opened t delimiter sheet types places) (count : Nat) {rows : List Row}
    (hrows : List.Forall₂ (Table.Reads (Table.columnsOf sheet.header types)) sheet.records rows) :
    ∃ routed, d.Routes t delimiter count sheet types places routed := by
  have hall : ∀ records, (∀ record ∈ records, record ∈ sheet.records) → ∀ rows,
      List.Forall₂ (Table.Reads (Table.columnsOf sheet.header types)) records rows →
      ∃ routed, List.Forall₂ (Routed.Of (keyColumns sheet.header types places) count) records
        routed := by
    intro records
    induction records with
    | nil => exact fun _ _ _ => ⟨[], .nil⟩
    | cons record records ih =>
      intro hmem rows hrows
      obtain ⟨row, rest, ⟨cells, rfl, hrow⟩, hrest, rfl⟩ := List.forall₂_cons_left_iff.1 hrows
      obtain ⟨routed, hrouted⟩ := ih (fun r hr => hmem r (by simp [hr])) rest hrest
      exact ⟨⟨(Key.ofRow row places).shard count, cells⟩ :: routed,
        .cons ((h.routed_iff (hmem _ (by simp)) hrow).2 ⟨rfl, rfl⟩) hrouted⟩
  obtain ⟨routed, hrouted⟩ := hall sheet.records (fun _ hr => hr) rows hrows
  exact ⟨routed, h, hrouted⟩

theorem Routes.fits (h : d.Routes t delimiter count sheet types places routed) {rows : List Row}
    (hrows : List.Forall₂ (Table.Reads (Table.columnsOf sheet.header types)) sheet.records rows) :
    List.Forall₂ (Routed.Fits sheet.header types places count) routed rows := by
  have hall : ∀ records routed rows, (∀ record ∈ records, record ∈ sheet.records) →
      List.Forall₂ (Routed.Of (keyColumns sheet.header types places) count) records routed →
      List.Forall₂ (Table.Reads (Table.columnsOf sheet.header types)) records rows →
      List.Forall₂ (Routed.Fits sheet.header types places count) routed rows := by
    intro records routed rows hmem hrouted
    induction hrouted generalizing rows with
    | nil =>
      intro hrows
      rw [List.forall₂_nil_left_iff.1 hrows]
      exact .nil
    | cons hr _ ih =>
      intro hrows
      obtain ⟨row, rest, ⟨cells, rfl, hrow⟩, hrest, rfl⟩ := List.forall₂_cons_left_iff.1 hrows
      obtain ⟨rfl, hshard⟩ := (h.routed_iff (hmem _ (by simp)) hrow).1 hr
      exact .cons ⟨hrow, hshard⟩ (ih rest (fun r hr => hmem r (by simp [hr])) hrest)
  exact hall _ _ _ (fun _ hr => hr) h.routes hrows

theorem Routes.cells_mem (h : d.Routes t delimiter count sheet types places routed) {r : Routed}
    (hr : r ∈ routed) : .ok r.cells ∈ sheet.records := by
  obtain ⟨record, hmem, hrecord, -⟩ := exists_left_of_forall₂ h.routes hr
  exact hrecord ▸ hmem

theorem Routes.shard_lt (h : d.Routes t delimiter count sheet types places routed)
    (hcount : 0 < count) {r : Routed} (hr : r ∈ routed) : r.shard < count := by
  obtain ⟨record, -, -, key, -, hshard⟩ := exists_left_of_forall₂ h.routes hr
  rw [hshard]
  exact Nat.mod_lt _ hcount

/-- What the file of a shard is loaded as. -/
theorem Routes.load_iff (h : d.Routes t delimiter count sheet types places routed)
    (hd : d.Rewritable delimiter count) (hcount : 1 < count) {path : FilePath}
    (hread : after.read path = .ok (shardText delimiter sheet.header routed shard)) :
    Table.load after path delimiter d.schema = .ok table ↔
      table.columns = sheet.header ∧ table.types = types.map ColumnType.storage ∧
        List.Forall₂ (fun (r : Routed) row =>
            Table.Holds (Table.columnsOf sheet.header types) r.cells row)
          (routed.filter (·.shard == shard)) table.rows := by
  have hheader := h.header_ne_nil hd
  have hunmarked : Csv.Unmarked (Csv.writeLine delimiter sheet.header ++
      ((routed.filter (·.shard == shard)).map Routed.cells).flatMap (Csv.writeLine delimiter)) := by
    have hnames : ∀ name ∈ sheet.header, name.toList.head? ≠ some Csv.mark :=
      fun name hname => hd.unmarked hcount name ((Schema.names_of_resolve h.resolves).1 hname)
    cases hcons : sheet.header with
    | nil => exact absurd hcons hheader
    | cons name names => exact Csv.unmarked_writeLine names (hnames name (by simp [hcons])) _
  have hsheet : Csv.Sheet.read delimiter (shardText delimiter sheet.header routed shard) =
      .ok ⟨sheet.header, ((routed.filter (·.shard == shard)).map Routed.cells).map .ok⟩ := by
    unfold shardText
    rw [← List.flatMap_map Routed.cells]
    refine Csv.read_lines (hd.separates hcount) hheader (fun cells hcells => ?_) hunmarked
    obtain ⟨r, hr, rfl⟩ := List.mem_map.1 hcells
    exact width_of_readSheet h.read (h.cells_mem (List.mem_filter.1 hr).1)
  have hload : Table.load after path delimiter d.schema = Table.ofSheet d.schema
      ⟨sheet.header, ((routed.filter (·.shard == shard)).map Routed.cells).map .ok⟩ := by
    unfold Table.load FileTree.readSheet
    rw [hread]
    dsimp only
    rw [hsheet]
    rfl
  rw [hload, Table.ofSheet_eq_ok]
  simp only [h.resolves, Except.ok.injEq, exists_eq_left', List.forall₂_map_left_iff, Table.Reads,
    exists_eq_left']

/-- A shard file holds the part of the table in that shard. -/
theorem SplitInto.load (h : d.SplitInto t after delimiter dir i count set)
    (hsame : AgreeOn Location.Spelled t after) (hd : d.Rewritable delimiter count)
    (hload : Table.load t d.path delimiter d.schema = .ok table)
    (hplaces : table.positions d.key = .ok places) (hshard : shard < count) :
    Table.load after (set.file shard) set.delimiter d.schema =
      .ok (table.shardOf places count shard) := by
  rcases h with ⟨hcount, rfl⟩ | ⟨hcount, sheet, types, places', routed, hroutes, rfl, hreads⟩
  · obtain rfl : count = 1 := by omega
    obtain rfl : shard = 0 := by omega
    rw [shardOf_one, ← hload]
    exact (hsame.load (p := d.path) (fun l hl => hl) delimiter d.schema).symm
  · obtain ⟨sheet', types', places'', hopen, hcolumns, hstorages, hpositions, hrows⟩ :=
      opened_of_load hd.declared hload
    cases hopen.read.symm.trans hroutes.read
    cases hopen.resolves.symm.trans hroutes.resolves
    cases hopen.placed.symm.trans hroutes.placed
    cases hpositions.symm.trans hplaces
    rw [file_shardFiles delimiter routed.length hshard]
    refine (hroutes.load_iff hd hcount (hreads shard hshard)).2 ⟨hcolumns, hstorages, ?_⟩
    refine (List.rel_filter (fun r row hfits => ?_) (hroutes.fits hrows)).imp fun _ _ h => h.1
    show (r.shard == shard) = true ↔ ((Key.ofRow row places).shard count == shard) = true
    rw [hfits.2]

/-- If all shard files can be loaded, so can the file of the dataset. -/
theorem SplitInto.whole (h : d.SplitInto t after delimiter dir i count set)
    (hsame : AgreeOn Location.Spelled t after) (hd : d.Rewritable delimiter count)
    (hcount : 0 < count) (hparts : ∀ shard, shard < count →
      ∃ part, Table.load after (set.file shard) set.delimiter d.schema = .ok part) :
    ∃ table, Table.load t d.path delimiter d.schema = .ok table := by
  rcases h with ⟨-, rfl⟩ | ⟨hmany, sheet, types, places, routed, hroutes, rfl, hreads⟩
  · obtain ⟨table, htable⟩ := hparts 0 hcount
    refine ⟨table, ?_⟩
    rw [← htable]
    exact hsame.load (p := d.path) (fun l hl => hl) delimiter d.schema
  · -- every record is in the file of its shard
    have hone : ∀ r ∈ routed, ∃ row,
        Table.Holds (Table.columnsOf sheet.header types) r.cells row := by
      intro r hr
      have hlt := hroutes.shard_lt hcount hr
      obtain ⟨part, hpart⟩ := hparts r.shard hlt
      rw [file_shardFiles delimiter routed.length hlt] at hpart
      obtain ⟨-, -, hrows⟩ := (hroutes.load_iff hd hmany (hreads r.shard hlt)).1 hpart
      have hmem : r ∈ routed.filter (·.shard == r.shard) := List.mem_filter.2 ⟨hr, by simp⟩
      obtain ⟨row, -, hholds⟩ := exists_right_of_forall₂ hrows hmem
      exact ⟨row, hholds⟩
    have hall : ∀ records routed, (∀ r ∈ routed, ∃ row,
        Table.Holds (Table.columnsOf sheet.header types) r.cells row) →
        List.Forall₂ (Routed.Of (keyColumns sheet.header types places) count) records routed →
        ∃ rows, List.Forall₂ (Table.Reads (Table.columnsOf sheet.header types)) records rows := by
      intro records routed hone hrouted
      induction hrouted with
      | nil => exact ⟨[], .nil⟩
      | @cons record r _ _ hr _ ih =>
        obtain ⟨row, hrow⟩ := hone r (by simp)
        obtain ⟨rows, hrows⟩ := ih fun r' hr' => hone r' (by simp [hr'])
        exact ⟨row :: rows, .cons ⟨r.cells, hr.1, hrow⟩ hrows⟩
    obtain ⟨rows, hrows⟩ := hall _ _ hone hroutes.routes
    exact ⟨⟨sheet.header, types.map ColumnType.storage, rows⟩, Table.load_eq_ok.2
      ⟨sheet, hroutes.read, Table.ofSheet_eq_ok.2 ⟨types, hroutes.resolves, rfl, rfl, hrows⟩⟩⟩

end Dataset

/-! ## The rows of all shards -/

theorem ble_trans {α : Type} (f : α → Nat) (a b c : α) (hab : (f a).ble (f b) = true)
    (hbc : (f b).ble (f c) = true) : (f a).ble (f c) = true := by
  rw [Nat.ble_eq] at hab hbc ⊢
  exact Nat.le_trans hab hbc

theorem ble_total {α : Type} (f : α → Nat) (a b : α) :
    ((f a).ble (f b) || (f b).ble (f a)) = true := by
  rw [Bool.or_eq_true, Nat.ble_eq, Nat.ble_eq]
  exact Nat.le_total _ _

theorem filter_mergeSort {α : Type} (f : α → Nat) (xs : List α) (n : Nat) :
    (xs.mergeSort fun a b => (f a).ble (f b)).filter (fun x => f x == n) =
      xs.filter fun x => f x == n := by
  have hsorted : (xs.filter fun x => f x == n).Pairwise fun a b => (f a).ble (f b) = true := by
    refine List.pairwise_iff_forall_sublist.2 fun {a b} hab => ?_
    have ha := (List.mem_filter.1 (hab.subset (by simp : a ∈ [a, b]))).2
    have hb := (List.mem_filter.1 (hab.subset (by simp : b ∈ [a, b]))).2
    rw [beq_iff_eq] at ha hb
    rw [Nat.ble_eq, ha, hb]
  -- sorting is stable, so that rows of one shard stay in their order
  have hsub : (xs.filter fun x => f x == n).Sublist
      (xs.mergeSort fun a b => (f a).ble (f b)) :=
    List.sublist_mergeSort (ble_trans f) (ble_total f) hsorted List.filter_sublist
  have hfilter := hsub.filter fun x => f x == n
  rw [List.filter_filter] at hfilter
  simp only [Bool.and_self] at hfilter
  refine (hfilter.eq_of_length ?_).symm
  exact ((List.mergeSort_perm xs _).symm.filter _).length_eq

theorem filter_append_of_sorted {α : Type} (f : α → Nat) (n : Nat) {xs : List α}
    (hsorted : xs.Pairwise fun a b => f a ≤ f b) (hlt : ∀ x ∈ xs, f x < n + 1) :
    xs.filter (fun x => decide (f x < n)) ++ xs.filter (fun x => f x == n) = xs := by
  induction xs with
  | nil => rfl
  | cons x xs ih =>
    obtain ⟨hx, hrest⟩ := List.pairwise_cons.1 hsorted
    have hxs := ih hrest fun y hy => hlt y (by simp [hy])
    have hxn := hlt x (by simp)
    by_cases hn : f x < n
    · have hne : (f x == n) = false := by
        rw [beq_eq_false_iff_ne]
        omega
      rw [List.filter_cons_of_pos (by simpa using hn), List.filter_cons_of_neg (by simp [hne]),
        List.cons_append, hxs]
    · -- what follows is in the last shard, too
      have hlast : ∀ y ∈ x :: xs, f y = n := by
        intro y hy
        have hy' := hlt y hy
        rcases List.mem_cons.1 hy with rfl | hy
        · omega
        · have := hx y hy
          omega
      have hbelow : (x :: xs).filter (fun x => decide (f x < n)) = [] :=
        List.filter_eq_nil_iff.2 fun y hy => by simp [hlast y hy]
      have hall : (x :: xs).filter (fun x => f x == n) = x :: xs :=
        List.filter_eq_self.2 fun y hy => by simp [hlast y hy]
      rw [hbelow, hall, List.nil_append]

theorem flatMap_filter_of_sorted {α : Type} (f : α → Nat) (n : Nat) {xs : List α}
    (hsorted : xs.Pairwise fun a b => f a ≤ f b) (hlt : ∀ x ∈ xs, f x < n) :
    ((List.range n).flatMap fun i => xs.filter fun x => f x == i) = xs := by
  induction n generalizing xs with
  | zero =>
    cases xs with
    | nil => rfl
    | cons x xs => exact absurd (hlt x (by simp)) (by simp)
  | succ n ih =>
    have hbelow := ih (hsorted.filter fun x => decide (f x < n)) fun x hx => by
      simpa using (List.mem_filter.1 hx).2
    have hsame : ((List.range n).flatMap fun i => xs.filter fun x => f x == i) =
        (List.range n).flatMap fun i =>
          (xs.filter fun x => decide (f x < n)).filter fun x => f x == i := by
      refine List.flatMap_congr fun i hi => ?_
      have hin := List.mem_range.1 hi
      rw [List.filter_filter]
      refine List.filter_congr fun x _ => ?_
      by_cases hx : f x = i
      · simp [hx, hin]
      · simp [hx]
    rw [List.range_succ, List.flatMap_append, hsame, hbelow, List.flatMap_singleton,
      filter_append_of_sorted f n hsorted hlt]

/-- The parts of a list by numbers are the list, sorted by them. -/
theorem flatMap_filter {α : Type} (f : α → Nat) (n : Nat) {xs : List α}
    (hlt : ∀ x ∈ xs, f x < n) : ((List.range n).flatMap fun i => xs.filter fun x => f x == i) =
      xs.mergeSort fun a b => (f a).ble (f b) := by
  have hsorted : (xs.mergeSort fun a b => (f a).ble (f b)).Pairwise fun a b => f a ≤ f b :=
    (List.pairwise_mergeSort (ble_trans f) (ble_total f) xs).imp Nat.le_of_ble_eq_true
  rw [← flatMap_filter_of_sorted f n hsorted fun x hx => hlt x (List.mem_mergeSort.1 hx)]
  exact List.flatMap_congr fun i _ => (filter_mergeSort f xs i).symm

/-- A table with its rows in the order of their shards; rows of one shard stay in their order. -/
def Table.byShard (t : Table) (places : List Nat) (count : Nat) : Table :=
  { t with rows := t.rows.mergeSort fun a b =>
      ((Key.ofRow a places).shard count).ble ((Key.ofRow b places).shard count) }

/-- The rows of all parts are the rows of the table in the order of their shards. -/
theorem rows_byShard (table : Table) (places : List Nat) (hcount : 0 < count) :
    ((List.range count).flatMap fun shard => (table.shardOf places count shard).rows) =
      (table.byShard places count).rows :=
  flatMap_filter _ count fun _ _ => Nat.mod_lt _ hcount

theorem byShard_perm (table : Table) (places : List Nat) (count : Nat) :
    (table.byShard places count).rows.Perm table.rows := List.mergeSort_perm _ _

theorem byShard_one (table : Table) (places : List Nat) : table.byShard places 1 = table := by
  have hrows : (table.byShard places 1).rows = table.rows := by
    rw [← rows_byShard table places Nat.one_pos]
    simp [shardOf_one]
  show ({ table with rows := (table.byShard places 1).rows } : Table) = table
  rw [hrows]

/-! ## All datasets -/

section Datasets

variable {datasets : List Dataset} {sets : List ShardSet} {tables : List Table}

/-- The tables of datasets can be loaded. -/
def LoadsAll (files : FileTree) (datasets : List Dataset) (tables : List Table) : Prop :=
  List.Forall₂ (fun d table => Table.load files d.path d.separator d.schema = .ok table) datasets
    tables

theorem LoadsAll.rectangular {files : FileTree} (h : LoadsAll files datasets tables) :
    ∀ table ∈ tables, table.Rectangular := by
  intro table htable
  obtain ⟨d, -, hload⟩ := exists_left_of_forall₂ h htable
  exact rectangular_load hload

/-- Every dataset is split into the shard set that has its place. -/
def SplitAll (files after : FileTree) (dir : Scratch) (count : Nat) (datasets : List Dataset)
    (sets : List ShardSet) : Prop :=
  sets.length = datasets.length ∧ ∀ (i : Nat) (d : Dataset) (set : ShardSet),
    datasets[i]? = some d → sets[i]? = some set →
      d.SplitInto files after d.separator dir i count set

theorem getElem?_shardInputs (datasets : List Dataset) (sets : List ShardSet) (shard i : Nat) :
    (shardInputs datasets sets shard)[i]? = (datasets.zip sets)[i]?.map fun p =>
      ⟨p.2.file shard, p.2.delimiter, p.1.schema, p.1.key⟩ := by
  unfold shardInputs
  rw [List.getElem?_map]

theorem keys_shardInputs (hlength : sets.length = datasets.length) (shard : Nat) :
    (shardInputs datasets sets shard).map ShardInput.key = datasets.map Dataset.key := by
  have hzip := List.map_fst_zip (Nat.le_of_eq hlength.symm)
  conv => rhs; rw [← hzip]
  simp only [shardInputs, List.map_map]
  rfl

theorem SplitAll.joinsTo (h : SplitAll t after dir count datasets sets)
    (hsame : AgreeOn Location.Spelled t after)
    (hd : ∀ d ∈ datasets, d.Rewritable d.separator count) (hload : LoadsAll t datasets tables)
    {key : List String} {keys : List (List String)} (hkeys : datasets.map Dataset.key = key :: keys)
    {result : Table} (hjoin : joinTables tables (key :: keys) = .ok result)
    (hplaces : result.positions key = .ok places) (hshard : shard < count) :
    JoinsTo after (shardInputs datasets sets shard) (result.shardOf places count shard) := by
  obtain ⟨parts, hlength, hparts⟩ := exists_list (R := fun i d part => ∃ table set places,
      tables[i]? = some table ∧ sets[i]? = some set ∧ table.positions d.key = .ok places ∧
        part = table.shardOf places count shard ∧
        Table.load after (set.file shard) set.delimiter d.schema = .ok part)
    fun i (d : Dataset) (hi : datasets[i]? = some d) => by
      obtain ⟨table, htable, hone⟩ := getElem?_of_forall₂ hload hi
      have hset : i < sets.length := by
        rw [h.1]
        exact (List.getElem?_eq_some_iff.1 hi).1
      have hmem := List.mem_of_getElem? hi
      obtain ⟨-, -, places, -, -, -, hpositions, -⟩ := opened_of_load (hd d hmem).declared hone
      have hsplit := h.2 i d _ hi (List.getElem?_eq_getElem hset)
      exact ⟨_, table, _, places, htable, List.getElem?_eq_getElem hset, hpositions, rfl,
        hsplit.load hsame (hd d hmem) hone hpositions hshard⟩
  refine ⟨parts, forall₂_of_getElem? ?_ fun i input part hi hpart => ?_, ?_⟩
  · rw [shardInputs, List.length_map, List.length_zip, h.1, Nat.min_self, hlength]
  · rw [getElem?_shardInputs, Option.map_eq_some_iff] at hi
    obtain ⟨⟨d, set⟩, hzip, rfl⟩ := hi
    obtain ⟨hi, hset⟩ := List.getElem?_zip_eq_some.1 hzip
    obtain ⟨table, set', places, -, hset', -, -, hpart⟩ := hparts i d part hi hpart
    cases hset.symm.trans hset'
    exact hpart
  · rw [keys_shardInputs h.1, hkeys]
    refine joinTables_shardOf hload.rectangular
      (forall₂_of_getElem? ?_ fun i p part hi hpart => ?_) hjoin hplaces
    · rw [← hkeys, List.length_zip, List.length_map, hlength, hload.length_eq, Nat.min_self]
    · rw [← hkeys] at hi
      obtain ⟨table, k⟩ := p
      obtain ⟨htable, hk⟩ := List.getElem?_zip_eq_some.1 hi
      rw [List.getElem?_map, Option.map_eq_some_iff] at hk
      obtain ⟨d, hd, rfl⟩ := hk
      obtain ⟨table', -, places, htable', -, hpositions, rfl, -⟩ := hparts i d part hd hpart
      cases htable.symm.trans htable'
      exact ⟨places, hpositions, rfl⟩

/-- If every shard can be loaded, so can the files of all datasets. -/
theorem SplitAll.whole (h : SplitAll t after dir count datasets sets)
    (hsame : AgreeOn Location.Spelled t after)
    (hd : ∀ d ∈ datasets, d.Rewritable d.separator count) (hcount : 0 < count)
    (hjoin : ∀ shard, shard < count → ∃ part, JoinsTo after (shardInputs datasets sets shard) part) :
    ∃ tables, LoadsAll t datasets tables := by
  obtain ⟨tables, hlength, htables⟩ := exists_list (R := fun _ (d : Dataset) table =>
      Table.load t d.path d.separator d.schema = .ok table)
    fun i (d : Dataset) (hi : datasets[i]? = some d) => by
    have hset : i < sets.length := by
      rw [h.1]
      exact (List.getElem?_eq_some_iff.1 hi).1
    have hsplit := h.2 i d _ hi (List.getElem?_eq_getElem hset)
    refine hsplit.whole hsame (hd d (List.mem_of_getElem? hi)) hcount fun shard hshard => ?_
    obtain ⟨part, tables, hall, -⟩ := hjoin shard hshard
    have hzip : (datasets.zip sets)[i]? = some (d, sets[i]) :=
      List.getElem?_zip_eq_some.2 ⟨hi, List.getElem?_eq_getElem hset⟩
    have hinput : (shardInputs datasets sets shard)[i]? =
        some ⟨sets[i].file shard, sets[i].delimiter, d.schema, d.key⟩ := by
      rw [getElem?_shardInputs, hzip, Option.map_some]
    obtain ⟨table, -, htable⟩ := getElem?_of_forall₂ hall hinput
    exact ⟨table, htable⟩
  exact ⟨tables, forall₂_of_getElem? hlength.symm htables⟩

end Datasets

end Equijoin
