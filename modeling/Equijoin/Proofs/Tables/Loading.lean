import Equijoin.Loading
import Equijoin.Proofs.Outcomes
import Equijoin.Sharding

/-! # What loading a table comes to

* `Table.Reads`: a record holds the values of a row. The number of the row does not matter.
* `Table.ofSheet_eq_ok`: a sheet is a table if all of its records hold rows.
* `readKey_eq_ok`: the key of a record, cell by cell.
* `readSheet_eq_ok`, `readSheet_eq_error`: the sheet of a file.
* none of these steps is a cancellation.
-/

set_option autoImplicit false

namespace Equijoin

/-! ## Rows -/

namespace Value

theorem ofCellAt_eq_ok {row : Nat} {column : String} {storage : Storage} {raw : String} {v : Value} :
    ofCellAt row column storage raw = .ok v ↔ ofCell storage raw = .ok v :=
  mapError_eq_ok

end Value

namespace Table

/-- The cells hold the values, each at the storage of its column. -/
def Holds (columns : List (String × Storage)) (cells : List String) (r : Row) : Prop :=
  List.Forall₂ (fun p v => Value.ofCell p.1.2 p.2 = .ok v) (columns.zip cells) r

/-- The record can be read, and its cells hold the values of the row. -/
def Reads (columns : List (String × Storage)) (record : Except Csv.Fault (List String)) (r : Row) :
    Prop :=
  ∃ cells, record = .ok cells ∧ Holds columns cells r

theorem readCells_eq_ok {row : Nat} {columns : List (String × Storage)} {cells : List String}
    {r : Row} : readCells row columns cells = .ok r ↔ Holds columns cells r := by
  induction columns generalizing cells r with
  | nil =>
    simp only [readCells, Holds, List.zip_nil_left, List.forall₂_nil_left_iff, Except.ok.injEq]
    exact eq_comm
  | cons c columns ih =>
    obtain ⟨column, storage⟩ := c
    cases cells with
    | nil =>
      simp only [readCells, Holds, List.zip_nil_right, List.forall₂_nil_left_iff, Except.ok.injEq]
      exact eq_comm
    | cons raw cells =>
      rw [readCells, bind_eq_ok, Holds, List.zip_cons_cons, List.forall₂_cons_left_iff]
      constructor
      · rintro ⟨v, hv, h⟩
        obtain ⟨vs, hvs, h⟩ := bind_eq_ok.1 h
        exact ⟨v, vs, Value.ofCellAt_eq_ok.1 hv, ih.1 hvs, (Except.ok.inj h).symm⟩
      · rintro ⟨v, vs, hv, hvs, rfl⟩
        exact ⟨v, Value.ofCellAt_eq_ok.2 hv, bind_eq_ok.2 ⟨vs, ih.2 hvs, rfl⟩⟩

theorem readRows_eq_ok {columns : List (String × Storage)} {row : Nat}
    {records : List (Except Csv.Fault (List String))} {rows : List Row} :
    readRows columns row records = .ok rows ↔ List.Forall₂ (Reads columns) records rows := by
  induction records generalizing row rows with
  | nil =>
    rw [readRows, List.forall₂_nil_left_iff, Except.ok.injEq]
    exact eq_comm
  | cons record records ih =>
    rw [List.forall₂_cons_left_iff]
    cases record with
    | error fault =>
      simp only [readRows, Reads, reduceCtorEq, false_and, exists_false]
    | ok cells =>
      rw [readRows, bind_eq_ok]
      constructor
      · rintro ⟨r, hr, h⟩
        obtain ⟨rs, hrs, h⟩ := bind_eq_ok.1 h
        exact ⟨r, rs, ⟨cells, rfl, readCells_eq_ok.1 hr⟩, ih.1 hrs, (Except.ok.inj h).symm⟩
      · rintro ⟨r, rs, ⟨_, hc, hr⟩, hrs, rfl⟩
        cases hc
        exact ⟨r, readCells_eq_ok.2 hr, bind_eq_ok.2 ⟨rs, ih.2 hrs, rfl⟩⟩

/-! ## Tables -/

/-- The columns of a header with their storages. -/
def columnsOf (header : List String) (types : List ColumnType) : List (String × Storage) :=
  header.zip (types.map ColumnType.storage)

theorem ofSheet_eq_ok {schema : Schema} {sheet : Csv.Sheet} {t : Table} :
    ofSheet schema sheet = .ok t ↔
      ∃ types, schema.resolve sheet.header = .ok types ∧ t.columns = sheet.header ∧
        t.types = types.map ColumnType.storage ∧
        List.Forall₂ (Reads (columnsOf sheet.header types)) sheet.records t.rows := by
  unfold ofSheet Schema.resolveSheet
  rw [bind_eq_ok]
  constructor
  · rintro ⟨types, htypes, h⟩
    obtain ⟨rows, hrows, h⟩ := bind_eq_ok.1 h
    cases h
    exact ⟨types, mapError_eq_ok.1 htypes, rfl, rfl, readRows_eq_ok.1 hrows⟩
  · rintro ⟨types, htypes, hcolumns, hstorages, hrows⟩
    refine ⟨types, mapError_eq_ok.2 htypes, bind_eq_ok.2 ⟨t.rows, readRows_eq_ok.2 hrows, ?_⟩⟩
    rw [← hcolumns, ← hstorages]

theorem load_eq_ok {files : FileTree} {path : FilePath} {delimiter : UInt8} {schema : Schema}
    {t : Table} : load files path delimiter schema = .ok t ↔
      ∃ sheet, files.readSheet path delimiter = .ok sheet ∧ ofSheet schema sheet = .ok t :=
  bind_eq_ok

end Table

/-! ## Headers -/

theorem typesOf_eq_ok {s : Schema} {header names : List String} {types : List ColumnType} :
    s.typesOf header names = .ok types ↔
      List.Forall₂ (fun name type => ∃ d, s.lookup name = some d ∧ d.type = type) names types := by
  induction names generalizing types with
  | nil =>
    rw [Schema.typesOf, List.forall₂_nil_left_iff, Except.ok.injEq]
    exact eq_comm
  | cons name names ih =>
    rw [Schema.typesOf, List.forall₂_cons_left_iff]
    cases hd : s.lookup name with
    | none => simp only [reduceCtorEq, false_and, exists_false]
    | some d =>
      simp only [map_eq_ok, ih, Option.some.injEq]
      constructor
      · rintro ⟨ts, hts, rfl⟩
        exact ⟨d.type, ts, ⟨d, rfl, rfl⟩, hts, rfl⟩
      · rintro ⟨_, ts, ⟨_, rfl, rfl⟩, hts, rfl⟩
        exact ⟨ts, hts, rfl⟩

theorem resolve_eq_ok {s : Schema} {header : List String} {types : List ColumnType} :
    s.resolve header = .ok types ↔
      List.Forall₂ (fun name type => ∃ d, s.lookup name = some d ∧ d.type = type) header types ∧
        ∀ d ∈ s.declarations, d.name ∈ header := by
  unfold Schema.resolve
  rw [bind_eq_ok]
  constructor
  · rintro ⟨ts, hts, h⟩
    split at h
    · cases h
    · rename_i hnone
      cases h
      refine ⟨typesOf_eq_ok.1 hts, fun d hd => ?_⟩
      have := List.find?_eq_none.1 hnone d hd
      simpa using this
  · rintro ⟨htypes, hall⟩
    refine ⟨types, typesOf_eq_ok.2 htypes, ?_⟩
    split
    · rename_i d hsome
      have hd := List.find?_some hsome
      have := hall d (List.mem_of_find?_eq_some hsome)
      simp [this] at hd
    · rfl

theorem length_resolve {s : Schema} {header : List String} {types : List ColumnType}
    (h : s.resolve header = .ok types) : types.length = header.length :=
  (resolve_eq_ok.1 h).1.length_eq.symm

theorem positions_eq_ok {columns key : List String} {places : List Nat} :
    positions columns key = .ok places ↔
      List.Forall₂ (fun name i => columns.idxOf? name = some i) key places := by
  have hone : ∀ name i, position columns name = .ok i ↔ columns.idxOf? name = some i := by
    intro name i
    unfold position
    split
    · rename_i hfound
      rw [hfound, Except.ok.injEq, Option.some.injEq]
    · rename_i hnone
      simp only [hnone, reduceCtorEq]
  unfold positions
  rw [mapM_eq_ok]
  simp only [hone]

/-! ## Keys -/

/-- A cell of a record at the place of a key column has the atom. -/
def KeyColumn.Holds (cells : List String) (c : KeyColumn) (a : KeyAtom) : Prop :=
  ∃ v, Value.ofCell c.storage ((cells[c.place]?).getD "") = .ok v ∧ KeyAtom.ofValue v = a

theorem readKey_eq_ok {row : Nat} {columns : List KeyColumn} {cells : List String} {key : Key} :
    readKey row columns cells = .ok key ↔
      List.Forall₂ (KeyColumn.Holds cells) columns key := by
  have hone : ∀ (c : KeyColumn) (a : KeyAtom),
      (Value.ofCellAt row c.name c.storage ((cells[c.place]?).getD "")).map KeyAtom.ofValue = .ok a ↔
        c.Holds cells a := by
    intro c a
    rw [map_eq_ok]
    simp only [Value.ofCellAt_eq_ok, KeyColumn.Holds]
  unfold readKey
  rw [mapM_eq_ok]
  simp only [hone]

/-! ## Sheets of files -/

theorem readSheet_eq_ok {files : FileTree} {path : FilePath} {delimiter : UInt8}
    {sheet : Csv.Sheet} : files.readSheet path delimiter = .ok sheet ↔
      ∃ text, files.read path = .ok text ∧ Csv.Sheet.read delimiter text = .ok sheet := by
  unfold FileTree.readSheet
  cases files.read path with
  | error fault => simp
  | ok text => simp [mapError_eq_ok]

/-! ## Faults of each step, none of which is a cancellation -/

/-- Reading a sheet fails for nothing but its file. -/
theorem readSheet_eq_error {files : FileTree} {path : FilePath} {delimiter : UInt8} {fault : Fault}
    (h : files.readSheet path delimiter = .error fault) : ∃ e, fault = .csv e := by
  unfold FileTree.readSheet at h
  split at h
  · cases h
    exact ⟨_, rfl⟩
  · obtain ⟨e, -, rfl⟩ := mapError_eq_error.1 h
    exact ⟨e, rfl⟩

theorem readSheet_ne_error {fault : Fault} (hfault : ∀ e, Fault.csv e ≠ fault) (files : FileTree)
    (path : FilePath) (delimiter : UInt8) : files.readSheet path delimiter ≠ .error fault := by
  intro h
  obtain ⟨e, he⟩ := readSheet_eq_error h
  exact hfault e he.symm

theorem resolveSheet_ne_cancelled (schema : Schema) (sheet : Csv.Sheet) :
    schema.resolveSheet sheet ≠ .error .cancelled :=
  mapError_ne_error (by simp) _

theorem readKey_ne_cancelled (row : Nat) (columns : List KeyColumn) (cells : List String) :
    readKey row columns cells ≠ .error .cancelled := by
  intro h
  obtain ⟨c, -, hc⟩ := exists_of_mapM_eq_error h
  exact mapError_ne_error (by simp) _ (map_eq_error.1 hc)

theorem readRows_ne_cancelled (columns : List (String × Storage)) (row : Nat)
    (records : List (Except Csv.Fault (List String))) :
    Table.readRows columns row records ≠ .error .cancelled := by
  have hcells : ∀ (row : Nat) (columns : List (String × Storage)) (cells : List String),
      Table.readCells row columns cells ≠ .error .cancelled := by
    intro row columns
    induction columns with
    | nil => exact fun cells => by simp [Table.readCells]
    | cons c columns ih =>
      intro cells
      cases cells with
      | nil => simp [Table.readCells]
      | cons raw cells =>
        intro h
        rcases bind_eq_error.1 h with h | ⟨v, -, h⟩
        · exact mapError_ne_error (by simp) _ h
        · rcases bind_eq_error.1 h with h | ⟨vs, -, h⟩
          · exact ih cells h
          · cases h
  induction records generalizing row with
  | nil => simp [Table.readRows]
  | cons record records ih =>
    cases record with
    | error fault => simp [Table.readRows]
    | ok cells =>
      intro h
      rcases bind_eq_error.1 h with h | ⟨r, -, h⟩
      · exact hcells _ _ _ h
      · rcases bind_eq_error.1 h with h | ⟨rs, -, h⟩
        · exact ih _ h
        · cases h

theorem load_ne_cancelled (files : FileTree) (path : FilePath) (delimiter : UInt8)
    (schema : Schema) : Table.load files path delimiter schema ≠ .error .cancelled := by
  intro h
  rcases bind_eq_error.1 h with h | ⟨sheet, -, h⟩
  · exact readSheet_ne_error (by simp) _ _ _ h
  · rcases bind_eq_error.1 h with h | ⟨types, -, h⟩
    · exact resolveSheet_ne_cancelled _ _ h
    · rcases bind_eq_error.1 h with h | ⟨rows, -, h⟩
      · exact readRows_ne_cancelled _ _ _ h
      · cases h

theorem unequalKeys?_eq_some {keys : List (List String)} {fault : Fault}
    (h : unequalKeys? keys = some fault) :
    ∃ i expected actual, fault = .keyArity i expected actual := by
  unfold unequalKeys? at h
  split at h
  · cases h
  · obtain ⟨⟨key, i⟩, -, h⟩ := List.exists_of_findSome?_eq_some h
    dsimp only at h
    split at h
    · cases h
    · cases h
      exact ⟨_, _, _, rfl⟩

end Equijoin
