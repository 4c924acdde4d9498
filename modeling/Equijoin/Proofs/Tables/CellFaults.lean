import Equijoin.Proofs.Stages.Scanning
import Equijoin.Proofs.Text.Legible

/-! # Cells that hold no value

A fault of a cell names a row, a column and a text. The row is counted in the file that is read,
which is the file of a dataset while it is split and the file of a shard while that is loaded.

* `Csv.Sheet.Misread`: where a sheet has a cell that holds no value of its column.
* `Table.load_eq_cell`: a file that cannot be loaded for a cell has this cell in the row that is
  reported.
* `yields_shard_cell`: so has the file of a dataset that cannot be split, in a key column.
* `Dataset.Routes.misread`: the cell of a shard file as a cell of the file that was split, and what
  the reported row is there.
-/

set_option autoImplicit false

namespace Equijoin

variable {row place : Nat} {column raw : String} {fault : CellFault}

/-! ## Sheets -/

/-- The row of the given number, the header being row 1, has at a place of the column a cell that
holds no value of the storage that the column has. -/
structure Csv.Sheet.Misread (sheet : Csv.Sheet) (schema : Schema) (row place : Nat)
    (column raw : String) (fault : CellFault) : Prop where
  named : sheet.header[place]? = some column
  cell : ∃ (n : Nat) (cells : List String), row = n + 2 ∧ sheet.records[n]? = some (.ok cells) ∧
    cells[place]? = some raw
  unread : ∃ storage, schema.storageOf? column = some storage ∧
    Value.ofCell storage raw = .error fault

theorem ofCellAt_eq_cell {row' : Nat} {column' raw' : String} {storage : Storage}
    (h : Value.ofCellAt row' column' storage raw' = .error (.cell row column raw fault)) :
    row' = row ∧ column' = column ∧ raw' = raw ∧ Value.ofCell storage raw = .error fault := by
  obtain ⟨e, he, h⟩ := mapError_eq_error.1 h
  cases h
  exact ⟨rfl, rfl, rfl, he⟩

/-- The storage of a column of a header is that of the first declaration of its name. -/
theorem storageOf?_of_resolve {schema : Schema} {header : List String} {types : List ColumnType}
    (h : schema.resolve header = .ok types) (hcolumn : header[place]? = some column) :
    ∃ type, types[place]? = some type ∧ schema.storageOf? column = some type.storage := by
  obtain ⟨type, htype, d, hd, rfl⟩ := getElem?_of_forall₂ (resolve_eq_ok.1 h).1 hcolumn
  exact ⟨d.type, htype, by rw [Schema.storageOf?, hd, Option.map_some]⟩

namespace Table

theorem readCells_eq_cell {row' : Nat} {columns : List (String × Storage)} {cells : List String}
    (h : readCells row' columns cells = .error (.cell row column raw fault)) :
    row' = row ∧ ∃ (place : Nat) (storage : Storage), columns[place]? = some (column, storage) ∧
      cells[place]? = some raw ∧ Value.ofCell storage raw = .error fault := by
  induction columns generalizing cells with
  | nil => cases h
  | cons c columns ih =>
    cases cells with
    | nil => cases h
    | cons first cells =>
      rcases bind_eq_error.1 h with h | ⟨v, -, h⟩
      · obtain ⟨rfl, rfl, rfl, hcell⟩ := ofCellAt_eq_cell h
        exact ⟨rfl, 0, c.2, rfl, rfl, hcell⟩
      · rcases bind_eq_error.1 h with h | ⟨vs, -, h⟩
        · obtain ⟨rfl, place, storage, hcolumn, hraw, hcell⟩ := ih h
          exact ⟨rfl, place + 1, storage, hcolumn, hraw, hcell⟩
        · cases h

theorem readRows_eq_cell {start : Nat} {columns : List (String × Storage)}
    {records : List (Except Csv.Fault (List String))}
    (h : readRows columns start records = .error (.cell row column raw fault)) :
    ∃ (n : Nat) (cells : List String) (place : Nat) (storage : Storage), row = start + n ∧
      records[n]? = some (.ok cells) ∧ columns[place]? = some (column, storage) ∧
        cells[place]? = some raw ∧ Value.ofCell storage raw = .error fault := by
  induction records generalizing start with
  | nil => cases h
  | cons record records ih =>
    cases record with
    | error fault => cases h
    | ok cells =>
      rcases bind_eq_error.1 h with h | ⟨r, -, h⟩
      · obtain ⟨rfl, place, storage, hcell⟩ := readCells_eq_cell h
        exact ⟨0, cells, place, storage, rfl, rfl, hcell⟩
      · rcases bind_eq_error.1 h with h | ⟨rs, -, h⟩
        · obtain ⟨n, cells, place, storage, rfl, hcell⟩ := ih h
          exact ⟨n + 1, cells, place, storage, by omega, hcell⟩
        · cases h

theorem ofSheet_eq_cell {schema : Schema} {sheet : Csv.Sheet}
    (h : ofSheet schema sheet = .error (.cell row column raw fault)) :
    ∃ place, sheet.Misread schema row place column raw fault := by
  rcases bind_eq_error.1 h with h | ⟨types, htypes, h⟩
  · exact absurd h (mapError_ne_error (by simp) _)
  · rcases bind_eq_error.1 h with h | ⟨rows, -, h⟩
    · obtain ⟨n, cells, place, storage, rfl, hrecord, hcolumn, hraw, hcell⟩ := readRows_eq_cell h
      obtain ⟨hname, hstorage⟩ := List.getElem?_zip_eq_some.1 hcolumn
      obtain ⟨type, htype, hdeclared⟩ := storageOf?_of_resolve (mapError_eq_ok.1 htypes) hname
      rw [List.getElem?_map, htype, Option.map_some, Option.some.injEq] at hstorage
      exact ⟨place, hname, ⟨n, cells, by omega, hrecord, hraw⟩, type.storage, hdeclared,
        hstorage ▸ hcell⟩
    · cases h

/-- A file that cannot be loaded for a cell has this cell in the row that is reported. -/
theorem load_eq_cell {files : FileTree} {path : FilePath} {delimiter : UInt8} {schema : Schema}
    (h : load files path delimiter schema = .error (.cell row column raw fault)) :
    ∃ sheet, files.readSheet path delimiter = .ok sheet ∧
      ∃ place, sheet.Misread schema row place column raw fault := by
  rcases bind_eq_error.1 h with h | ⟨sheet, hsheet, h⟩
  · exact absurd h (readSheet_ne_error (by simp) _ _ _)
  · exact ⟨sheet, hsheet, ofSheet_eq_cell h⟩

end Table

/-! ## Splitting -/

theorem readKey_eq_cell {row' : Nat} {columns : List KeyColumn} {cells : List String}
    (h : readKey row' columns cells = .error (.cell row column raw fault)) :
    row' = row ∧ ∃ c ∈ columns, c.name = column ∧ (cells[c.place]?).getD "" = raw ∧
      Value.ofCell c.storage raw = .error fault := by
  obtain ⟨c, hc, h⟩ := exists_of_mapM_eq_error h
  obtain ⟨rfl, hname, hraw, hcell⟩ := ofCellAt_eq_cell (map_eq_error.1 h)
  exact ⟨rfl, c, hc, hname, hraw, hcell⟩

theorem yields_routeRecords_cell {columns : List KeyColumn} {count start : Nat}
    {earlier : List Routed} {records : List (Except Csv.Fault (List String))} {s u : FileTree}
    (h : (routeRecords columns count start earlier records).Yields s
      (.error (.cell row column raw fault)) u) :
    ∃ (n : Nat) (cells : List String), row = start + n ∧ records[n]? = some (.ok cells) ∧
      ∃ c ∈ columns, c.name = column ∧ (cells[c.place]?).getD "" = raw ∧
        Value.ofCell c.storage raw = .error fault := by
  induction records generalizing start earlier s with
  | nil =>
    rw [routeRecords] at h
    cases h.1
  | cons record records ih =>
    cases record with
    | error fault =>
      rw [routeRecords] at h
      cases h.1
    | ok cells =>
      rw [routeRecords] at h
      rcases Task.yields_check_bind.1 h with h | ⟨hresult, -⟩
      · rcases Task.yields_bind_error.1 h with ⟨key, v, -, h⟩ | hkey
        · obtain ⟨n, cells', rfl, hrecord, hcell⟩ := ih h
          exact ⟨n + 1, cells', by omega, hrecord, hcell⟩
        · obtain ⟨rfl, hcell⟩ := readKey_eq_cell hkey.1
          exact ⟨0, cells, rfl, rfl, hcell⟩
      · cases hresult

section Datasets

variable {d : Dataset} {files : FileTree} {delimiter : UInt8} {sheet : Csv.Sheet}
  {types : List ColumnType} {places : List Nat}

/-- What a key column of a file is called, and how its cells are read. -/
theorem Dataset.Opened.keyColumn (h : d.Opened files delimiter sheet types places) {c : KeyColumn}
    (hc : c ∈ keyColumns sheet.header types places) :
    c.place ∈ places ∧ sheet.header[c.place]? = some c.name ∧
      d.schema.storageOf? c.name = some c.storage := by
  obtain ⟨place, hplace, rfl⟩ := List.mem_map.1 hc
  have hlt := positions_lt_length h.placed place hplace
  have hname : sheet.header[place]? = some sheet.header[place] := List.getElem?_eq_getElem hlt
  obtain ⟨type, htype, hstorage⟩ := storageOf?_of_resolve h.resolves hname
  refine ⟨hplace, ?_, ?_⟩
  · rw [hname, Option.getD_some]
  · rw [hname, htype, Option.getD_some, Option.getD_some, hstorage]

theorem avoids_writeShards (contents : List (FilePath × Bytes)) :
    (writeShards contents).Avoids (.cell row column raw fault) :=
  Task.avoids_attempt fun _ => mapError_ne_error (by simp) _

/-- A dataset that cannot be split for a cell has this cell in a key column of the row that is
reported. -/
theorem yields_shard_cell {index count : Nat} {folder : Folder} {u : FileTree}
    (h : (d.shard index delimiter count folder).Yields files
      (.error (.cell row column raw fault)) u) :
    1 < count ∧ ∃ sheet types places, d.Opened files delimiter sheet types places ∧
      ∃ place ∈ places, sheet.Misread d.schema row place column raw fault := by
  unfold Dataset.shard at h
  split at h
  · cases h.1
  rename_i hcount
  refine ⟨by omega, ?_⟩
  rcases yields_opened h with ⟨sheet, types, places, hopen, h⟩ | ⟨e, hresult, -, hfault⟩
  · rcases Task.yields_bind_error.1 h with ⟨_, v, -, h⟩ | h
    · rcases Task.yields_bind_error.1 h with ⟨routed, w, -, h⟩ | h
      · rcases Task.yields_bind_error.1 h with ⟨_, x, -, h⟩ | h
        · cases h.1
        · exact absurd h (avoids_writeShards _ _ _)
      · obtain ⟨n, cells, rfl, hrecord, c, hc, rfl, hraw, hcell⟩ := yields_routeRecords_cell h
        obtain ⟨hplace, hname, hstorage⟩ := hopen.keyColumn hc
        have hwidth : c.place < cells.length := by
          rw [width_of_readSheet hopen.read (List.mem_of_getElem? hrecord)]
          exact (List.getElem?_eq_some_iff.1 hname).1
        rw [List.getElem?_eq_getElem hwidth, Option.getD_some] at hraw
        exact ⟨sheet, types, places, hopen, c.place, hplace, hname,
          ⟨n, cells, by omega, hrecord, hraw ▸ List.getElem?_eq_getElem hwidth⟩,
          c.storage, hstorage, hcell⟩
    · exact absurd h (avoids_writeShards _ _ _)
  · cases hresult
    obtain ⟨e, he⟩ | ⟨e, he⟩ := hfault
    · cases he
    · cases he

/-! ## Shard files -/

/-- An element of a filtered list, and its place in the list: so many before it pass the filter. -/
theorem getElem?_filter {α : Type} {p : α → Bool} {xs : List α} {n : Nat} {x : α}
    (h : (xs.filter p)[n]? = some x) :
    ∃ m, xs[m]? = some x ∧ p x = true ∧ n = ((xs.take m).filter p).length := by
  induction xs generalizing n with
  | nil => cases h
  | cons y xs ih =>
    by_cases hy : p y = true
    · rw [List.filter_cons_of_pos hy] at h
      cases n with
      | zero =>
        cases h
        exact ⟨0, rfl, hy, rfl⟩
      | succ n =>
        obtain ⟨m, hm, hx, rfl⟩ := ih h
        exact ⟨m + 1, hm, hx, by rw [List.take_succ_cons, List.filter_cons_of_pos hy]; rfl⟩
    · rw [List.filter_cons_of_neg hy] at h
      obtain ⟨m, hm, hx, rfl⟩ := ih h
      exact ⟨m + 1, hm, hx, by rw [List.take_succ_cons, List.filter_cons_of_neg hy]⟩

/-- The number of records before one that go to the same shard. -/
def earlierIn (routed : List Routed) (shard n : Nat) : Nat :=
  ((routed.take n).filter (·.shard == shard)).length

/-- A cell of a shard file that holds no value is a cell of the file that was split, but not of a
key column. The row that is reported counts the records of the shard only. -/
theorem Dataset.Routes.misread {routed : List Routed} {count shard : Nat} {part : Csv.Sheet}
    (h : d.Routes files delimiter count sheet types places routed)
    (hseparates : Csv.Separates delimiter) (hlegible : Csv.Legible delimiter sheet.header)
    (hpart : Csv.Sheet.read delimiter (shardText delimiter sheet.header routed shard) = .ok part)
    (hmisread : part.Misread d.schema row place column raw fault) :
    place ∉ places ∧ ∃ n r, routed[n]? = some r ∧ r.shard = shard ∧
      row = earlierIn routed shard n + 2 ∧
        sheet.Misread d.schema (n + 2) place column raw fault := by
  have hwidth : ∀ cells ∈ (routed.filter (·.shard == shard)).map Routed.cells,
      cells.length = sheet.header.length := by
    intro cells hcells
    obtain ⟨r, hr, rfl⟩ := List.mem_map.1 hcells
    exact width_of_readSheet h.read (h.cells_mem (List.mem_filter.1 hr).1)
  have hread := (Csv.read_lines_iff hseparates hwidth).2 hlegible
  rw [List.flatMap_map] at hread
  cases hpart.symm.trans hread
  obtain ⟨n, cells, rfl, hrecord, hraw⟩ := hmisread.cell
  rw [List.getElem?_map, List.getElem?_map, Option.map_map, Option.map_eq_some_iff] at hrecord
  obtain ⟨r, hr, hsame⟩ := hrecord
  cases hsame
  obtain ⟨m, hm, hshard, rfl⟩ := getElem?_filter hr
  obtain ⟨record, hrecord', hcells, key, hkey, -⟩ := getElem?_of_forall₂ h.routes.flip hm
  refine ⟨fun hplace => ?_, m, r, hm, by simpa using hshard, rfl, hmisread.named,
    ⟨m, r.cells, rfl, hcells ▸ hrecord', hraw⟩, hmisread.unread⟩
  -- all cells of key columns have been read
  obtain ⟨storage, hstorage, hcell⟩ := hmisread.unread
  have hc : ⟨place, (sheet.header[place]?).getD "", ((types[place]?).getD .text).storage⟩ ∈
      keyColumns sheet.header types places := List.mem_map_of_mem hplace
  obtain ⟨-, -, hdeclared⟩ := h.toOpened.keyColumn hc
  obtain ⟨a, -, v, hv, -⟩ := exists_right_of_forall₂ hkey hc
  simp only [hmisread.named, Option.getD_some] at hdeclared
  rw [hstorage] at hdeclared
  simp only [hraw, Option.getD_some, ← Option.some.inj hdeclared, hcell] at hv
  cases hv

end Datasets

end Equijoin
