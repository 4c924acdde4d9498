import Equijoin.Proofs.Tables.Shards

/-! # Keys of text

Coercion makes floats of a key column of text if all of its cells are blank or numbers. How two key
cells with one text compare therefore depends on the columns in which they stand.

* `KeyAtom.ofText`: the canonical form of a text that is not blank, in either kind of column.
* `Dataset.Numeric`: which key columns hold nothing but numbers and blanks.
* `Dataset.Prepared.key_type`: after coercion the numeric key columns hold floats.
* `Dataset.HasRecord`, `Table.HasRow`: a record with given key texts, and its row.
* `Dataset.Prepared.hasKey`: the key of this row.
-/

set_option autoImplicit false

namespace Equijoin

open FileTree

/-! ## Atoms -/

/-- The canonical form of a text that is not blank, in a column of floats or of text. -/
def KeyAtom.ofText (float : Bool) (text : String) : KeyAtom :=
  if float then ((Binary64.read? text).map ofFloat).getD .null else .text text

theorem ofFloat_eq_null {x : Binary64} : KeyAtom.ofFloat x = .null ↔ x.isNaN = true := by
  unfold KeyAtom.ofFloat
  split
  · rename_i hnan
    simp [hnan]
  · rename_i hnumber
    split
    · split <;> simp [hnumber]
    · simp [hnumber]

theorem ofFloat_ne_text (x : Binary64) (s : String) : KeyAtom.ofFloat x ≠ .text s := by
  unfold KeyAtom.ofFloat
  split
  · simp
  · split
    · split <;> simp
    · simp

theorem ofText_true_ne_text (s t : String) : KeyAtom.ofText true s ≠ .text t := by
  unfold KeyAtom.ofText
  rw [if_pos rfl]
  cases Binary64.read? s with
  | none => exact fun h => nomatch h
  | some x => exact ofFloat_ne_text x t

theorem ofText_left_injective {p q : Bool} {text : String}
    (h : KeyAtom.ofText p text = KeyAtom.ofText q text) : p = q := by
  cases p with
  | true =>
    cases q with
    | true => rfl
    | false => exact absurd h (ofText_true_ne_text text text)
  | false =>
    cases q with
    | true => exact absurd h.symm (ofText_true_ne_text text text)
    | false => rfl

theorem ofText_ne_null {float : Bool} {text : String} :
    KeyAtom.ofText float text ≠ .null ↔
      (float = true → ∃ x, Binary64.read? text = some x ∧ x.isNaN = false) := by
  cases float with
  | false => simp [KeyAtom.ofText]
  | true =>
    unfold KeyAtom.ofText
    rw [if_pos rfl]
    cases Binary64.read? text with
    | none => simp
    | some x => simp [ofFloat_eq_null]

/-- A cell that is not blank has the canonical form of its text. -/
theorem atom_of_cell {float : Bool} {raw : String} {v : Value}
    (h : Value.ofCell (if float then .float64 else .text) raw = .ok v) (hne : Text.trim raw ≠ "") :
    KeyAtom.ofValue v = KeyAtom.ofText float (Text.trim raw) := by
  have hraw : raw ≠ "" := by
    rintro rfl
    exact hne rfl
  unfold Value.ofCell at h
  rw [if_neg hraw, if_neg fun hblank => hne hblank.2] at h
  cases float with
  | false =>
    cases h
    simp [KeyAtom.ofValue, KeyAtom.ofText, hne]
  | true =>
    simp only [Value.ofText, if_true] at h
    split at h
    · rename_i x hx
      cases h
      simp [KeyAtom.ofValue, KeyAtom.ofText, hx]
    · cases h

/-! ## Keys -/

/-- The texts of the cells at some places, without surrounding blanks. -/
def keyTexts (places : List Nat) (cells : List String) : List String :=
  places.map fun i => Text.trim ((cells[i]?).getD "")

theorem isJoinable_zipWith {floats : List Bool} {texts : List String} :
    Key.isJoinable (List.zipWith KeyAtom.ofText floats texts) = true ↔
      ∀ p ∈ floats.zip texts, p.1 = true → ∃ x, Binary64.read? p.2 = some x ∧ x.isNaN = false := by
  unfold Key.isJoinable
  rw [Bool.not_eq_true', ← Bool.not_eq_true, List.contains_iff_mem, ← List.map_uncurry_zip_eq_zipWith]
  simp only [List.mem_map, not_exists, not_and]
  exact forall₂_congr fun p _ => ofText_ne_null

theorem zipWith_ofText_injective {p q : List Bool} {texts : List String}
    (hp : p.length = texts.length) (hq : q.length = texts.length)
    (h : List.zipWith KeyAtom.ofText p texts = List.zipWith KeyAtom.ofText q texts) : p = q := by
  induction texts generalizing p q with
  | nil => rw [List.length_eq_zero_iff.1 hp, List.length_eq_zero_iff.1 hq]
  | cons text texts ih =>
    obtain ⟨b, p, rfl⟩ := List.exists_cons_of_length_eq_add_one hp
    obtain ⟨c, q, rfl⟩ := List.exists_cons_of_length_eq_add_one hq
    rw [List.zipWith_cons_cons, List.zipWith_cons_cons, List.cons.injEq] at h
    rw [ofText_left_injective h.1, ih (by simpa using hp) (by simpa using hq) h.2]

/-! ## Columns of numbers -/

/-- All cells of a column are blank or numbers. -/
def Csv.Sheet.numericAt (sheet : Csv.Sheet) (i : Nat) : Bool :=
  sheet.records.all fun
    | .ok cells => isNumeric ((cells[i]?).getD "")
    | .error _ => true

theorem mem_dropRepeats {α : Type} [DecidableEq α] {a : α} {xs : List α} :
    a ∈ dropRepeats xs ↔ a ∈ xs := by
  fun_induction dropRepeats xs with
  | case1 => rfl
  | case2 => rfl
  | case3 b rest ih =>
    rw [ih]
    simp
  | case4 b c rest hne ih =>
    rw [List.mem_cons, ih, ← List.mem_cons]

theorem mem_candidates {types : List ColumnType} {places : List Nat} {key : List String}
    {c : Candidate} : c ∈ candidates types places key ↔
      (c.place, c.name) ∈ places.zip key ∧ types[c.place]? = some .text := by
  unfold candidates
  rw [mem_dropRepeats, List.mem_map]
  constructor
  · rintro ⟨p, hp, rfl⟩
    obtain ⟨hmem, htype⟩ := List.mem_filter.1 hp
    exact ⟨hmem, by simpa using htype⟩
  · rintro ⟨hmem, htype⟩
    exact ⟨(c.place, c.name), List.mem_filter.2 ⟨hmem, by simpa using htype⟩, rfl⟩

section Types

variable {files : FileTree} {d d' : Dataset} {delimiter : UInt8} {sheet : Csv.Sheet}
  {types : List ColumnType} {places : List Nat} {name : String} {i : Nat}

theorem Dataset.Opened.place (h : d.Opened files delimiter sheet types places)
    (hi : (i, name) ∈ places.zip d.key) : sheet.header.idxOf? name = some i := by
  obtain ⟨k, hk⟩ := List.mem_iff_getElem?.1 hi
  obtain ⟨hplace, hname⟩ := List.getElem?_zip_eq_some.1 hk
  obtain ⟨j, hj, hidx⟩ := getElem?_of_forall₂ (positions_eq_ok.1 h.placed) hname
  cases hplace.symm.trans hj
  exact hidx

/-- A key column has the type that is declared for its name. -/
theorem Dataset.Opened.type (h : d.Opened files delimiter sheet types places)
    (hi : (i, name) ∈ places.zip d.key) :
    types[i]? = (d.schema.lookup name).map Declaration.type := by
  obtain ⟨hlt, hat, -⟩ := List.findIdx?_eq_some_iff_getElem.1 (h.place hi)
  have hheader : sheet.header[i]? = some name := by
    rw [List.getElem?_eq_getElem hlt, beq_iff_eq.1 hat]
  obtain ⟨type, htype, c, hc, rfl⟩ := getElem?_of_forall₂ (resolve_eq_ok.1 h.resolves).1 hheader
  rw [htype, hc, Option.map_some]

theorem Dataset.Scanned.mem_promoted {promoted : List String}
    (h : d.Scanned files delimiter sheet types places promoted)
    (hi : (i, name) ∈ places.zip d.key)
    (htext : (d.schema.lookup name).map Declaration.type = some .text) :
    name ∈ promoted ↔ sheet.numericAt i = true := by
  rw [h.promotes, List.mem_map]
  constructor
  · rintro ⟨c, hc, rfl⟩
    obtain ⟨hc, hsurvives⟩ := List.mem_filter.1 hc
    have hplace := h.place (mem_candidates.1 hc).1
    rw [h.place hi, Option.some.injEq] at hplace
    rw [hplace]
    exact hsurvives
  · intro hnumeric
    refine ⟨⟨i, name⟩, List.mem_filter.2 ⟨mem_candidates.2 ⟨hi, ?_⟩, hnumeric⟩, rfl⟩
    rw [h.type hi, htext]

/-- After coercion a key column of text holds floats if it is numeric, and text otherwise. -/
theorem Dataset.Prepared.key_type {c : Coercion}
    (h : d.Prepared files d' c delimiter sheet types places) (heven : d.schema.Even)
    (hdeclared : ∀ name ∈ d.key, name ∈ d.schema.names) (hi : (i, name) ∈ places.zip d.key)
    (htext : (d.schema.lookup name).map Declaration.type = some .text) :
    (d'.schema.lookup name).map Declaration.type =
      some (if sheet.numericAt i then .float64 else .text) := by
  have hpromoted : ∀ n ∈ c.promoted, n ∈ d.schema.names := by
    intro n hn
    rw [h.scanned.promotes, List.mem_map] at hn
    obtain ⟨candidate, hcandidate, rfl⟩ := hn
    have hkey := (mem_candidates.1 (List.mem_filter.1 hcandidate).1).1
    exact hdeclared _ (List.of_mem_zip hkey).2
  have hmem := h.scanned.mem_promoted hi htext
  rw [h.result, Schema.lookup_promote heven hpromoted, htext]
  by_cases hnumeric : sheet.numericAt i = true
  · rw [if_pos (hmem.2 hnumeric), if_pos hnumeric]
  · rw [if_neg fun hn => hnumeric (hmem.1 hn), if_neg hnumeric]

end Types

/-! ## Records -/

/-- For each key column, whether it is numeric. -/
def Dataset.Numeric (files : FileTree) (d : Dataset) (numeric : List Bool) : Prop :=
  ∃ sheet places, files.readSheet d.path d.separator = .ok sheet ∧
    positions sheet.header d.key = .ok places ∧ places.map sheet.numericAt = numeric

/-- The cells are a record of the file of the dataset, with the texts as its key. -/
def Dataset.HasRecord (files : FileTree) (d : Dataset) (texts cells : List String) : Prop :=
  ∃ sheet places, files.readSheet d.path d.separator = .ok sheet ∧
    positions sheet.header d.key = .ok places ∧ .ok cells ∈ sheet.records ∧
      keyTexts places cells = texts

/-- The cells hold the values of a row of the table. -/
def Table.HasRow (t : Table) (cells : List String) (row : Row) : Prop :=
  row ∈ t.rows ∧ Holds (t.columns.zip t.types) cells row

theorem Dataset.Numeric.unique {files : FileTree} {d : Dataset} {p q : List Bool}
    (hp : d.Numeric files p) (hq : d.Numeric files q) : p = q := by
  obtain ⟨sheet, places, hread, hplaces, rfl⟩ := hp
  obtain ⟨sheet', places', hread', hplaces', rfl⟩ := hq
  cases hread.symm.trans hread'
  cases hplaces.symm.trans hplaces'
  rfl

/-- All key columns of a dataset are declared as text. -/
def Dataset.TextKeyed (d : Dataset) : Prop :=
  ∀ name ∈ d.key, (d.schema.lookup name).map Declaration.type = some .text

section Records

variable {files : FileTree} {d d' : Dataset} {c : Coercion} {delimiter : UInt8}
  {sheet : Csv.Sheet} {types types' : List ColumnType} {places : List Nat} {table : Table}
  {cells texts : List String} {row : Row}

theorem ofRow_texts (h : d.Prepared files d' c delimiter sheet types places)
    (hopen : d'.Opened files delimiter sheet types' places) (heven : d.schema.Even)
    (hdeclared : ∀ name ∈ d.key, name ∈ d.schema.names) (htext : d.TextKeyed)
    (hcells : .ok cells ∈ sheet.records)
    (hrow : Table.Holds (Table.columnsOf sheet.header types') cells row)
    (hne : "" ∉ keyTexts places cells) : Key.ofRow row places =
      List.zipWith KeyAtom.ofText (places.map sheet.numericAt) (keyTexts places cells) := by
  have hkey : d'.key = d.key := by rw [h.result]
  unfold Key.ofRow keyTexts
  rw [List.zipWith_map, List.zipWith_self]
  refine List.map_congr_left fun i hi => ?_
  obtain ⟨v, hv, hcell⟩ := holds_at (length_resolve hopen.resolves)
    (width_of_readSheet hopen.read hcells) hrow (positions_lt_length hopen.placed i hi)
  obtain ⟨name, hname⟩ : ∃ name, (i, name) ∈ places.zip d.key := by
    obtain ⟨k, hk⟩ := List.mem_iff_getElem?.1 hi
    obtain ⟨name, hname, -⟩ := getElem?_of_forall₂ (positions_eq_ok.1 h.scanned.placed).flip hk
    exact ⟨name, List.mem_of_getElem? (List.getElem?_zip_eq_some.2 ⟨hk, hname⟩)⟩
  have htype : types'[i]? = some (if sheet.numericAt i then .float64 else .text) := by
    rw [hopen.type (hkey ▸ hname)]
    exact h.key_type heven hdeclared hname (htext name (List.of_mem_zip hname).2)
  rw [htype, Option.getD_some, apply_ite ColumnType.storage] at hcell
  rw [hv, Option.map_some, Option.getD_some]
  refine atom_of_cell hcell fun hblank => hne ?_
  exact hblank ▸ List.mem_map_of_mem hi

/-- A record whose key texts are not blank has a row in the table of its dataset, the key of which is
the canonical form of the texts. -/
theorem Dataset.Prepared.hasKey (h : d.Prepared files d' c delimiter sheet types places)
    (heven : d.schema.Even) (hdeclared : ∀ name ∈ d.key, name ∈ d.schema.names)
    (htext : d.TextKeyed) (hload : Table.load files d'.path d'.separator d'.schema = .ok table)
    (hrecord : d'.HasRecord files texts cells) (hne : "" ∉ texts) :
    ∃ numeric row, d'.Numeric files numeric ∧ numeric.length = texts.length ∧
      table.HasRow cells row ∧
        HasKey (List.zipWith KeyAtom.ofText numeric texts) (table, d'.key) row := by
  have hseparator := h.separator_eq
  have hkey : d'.key = d.key := by rw [h.result]
  have hnames : ∀ name ∈ d'.key, name ∈ d'.schema.names := by
    intro name hname
    rw [h.result] at hname ⊢
    exact (Schema.names_promote _ _).symm ▸ hdeclared name hname
  obtain ⟨sheet', types', places', hopen, hcolumns, hstorages, hpositions, hrows⟩ :=
    opened_of_load hnames hload
  have hread := hopen.read
  rw [h.path_eq, hseparator] at hread
  cases hread.symm.trans h.scanned.read
  have hplaced := hopen.placed
  rw [hkey] at hplaced
  cases hplaced.symm.trans h.scanned.placed
  obtain ⟨sheet'', places'', hread', hplaced', hcells, rfl⟩ := hrecord
  cases hread'.symm.trans hopen.read
  cases hplaced'.symm.trans hopen.placed
  obtain ⟨row, hrow, cells', hcells', hholds⟩ := exists_right_of_forall₂ hrows hcells
  cases hcells'
  refine ⟨places.map sheet.numericAt, row, ⟨sheet, places, hopen.read, hopen.placed, rfl⟩, ?_,
    ⟨hrow, ?_⟩, hrow, places, hpositions, ?_⟩
  · rw [List.length_map, keyTexts, List.length_map]
  · rw [hcolumns, hstorages]
    exact hholds
  · exact ofRow_texts h (hseparator ▸ hopen) heven hdeclared htext hcells hholds hne

end Records

end Equijoin
