import Equijoin.Proofs.Json.Schemas
import Equijoin.Proofs.Tables.Cells
import Equijoin.Proofs.Tables.Merging
import Equijoin.Proofs.Text.Records

/-! # Tables read back

A table is written as a header and lines, and its columns as a descriptor. Under the schema that the
descriptor is read as, the lines are read as the table again.

* `Schema.restated`: the schema of the columns of a header.
* `Schema.parse_reconcile`: the descriptor of the header is read as this schema.
* `Schema.resolve_restated`: under this schema the columns have their storages.
* `Table.ofText_written`: what is written is read as the table, but for its NaNs.
-/

set_option autoImplicit false

namespace Equijoin

/-! ## Types -/

/-- The type that has the name of a storage. -/
def Storage.type : Storage → ColumnType
  | .int64 => .int64
  | .float64 => .float64
  | .bool => .bool
  | .text => .text

theorem ColumnType.ofName?_storage (storage : Storage) :
    ofName? storage.name = some storage.type := by
  cases storage <;> rfl

@[simp] theorem Storage.storage_type (storage : Storage) : storage.type.storage = storage := by
  cases storage <;> rfl

/-! ## Schemas -/

namespace Schema

variable {s : Schema} {header : List String} {types : List Storage} {out : Descriptor}

/-- The columns of a header that belong to a group, with their storages. -/
def columnsIn (s : Schema) (header : List String) (types : List Storage) (group : ColumnGroup) :
    List (String × Storage) :=
  (header.zip types).filter fun p => s.groupOf? p.1 = some group

/-- The schema of the columns of a header, grouped as in another schema. -/
def restated (s : Schema) (header : List String) (types : List Storage) : Schema where
  ids := (s.columnsIn header types .id).map Prod.fst
  features := (s.columnsIn header types .feature).map Prod.fst
  labels := (s.columnsIn header types .label).map Prod.fst
  idTypes := (s.columnsIn header types .id).map fun p => p.2.type
  featureTypes := (s.columnsIn header types .feature).map fun p => p.2.type
  labelTypes := (s.columnsIn header types .label).map fun p => p.2.type

theorem even_restated (s : Schema) (header : List String) (types : List Storage) :
    (s.restated header types).Even where
  ids := by simp [restated]
  features := by simp [restated]
  labels := by simp [restated]

theorem declare_map (group : ColumnGroup) (columns : List (String × Storage)) :
    declare group (columns.map Prod.fst) (columns.map fun p => p.2.type) =
      columns.map fun p => ⟨p.1, p.2.type, group⟩ := by
  unfold declare
  rw [List.zip_map', List.map_map]
  rfl

theorem mem_declarations_restated {d : Declaration} :
    d ∈ (s.restated header types).declarations ↔ ∃ p ∈ header.zip types,
      s.groupOf? p.1 = some d.group ∧ d.name = p.1 ∧ d.type = p.2.type := by
  have hgroup : ∀ group, d ∈ (s.columnsIn header types group).map
      (fun p => (⟨p.1, p.2.type, group⟩ : Declaration)) ↔ ∃ p ∈ header.zip types,
        s.groupOf? p.1 = some group ∧ d = ⟨p.1, p.2.type, group⟩ := by
    intro group
    simp only [columnsIn, List.mem_map, List.mem_filter, decide_eq_true_eq, and_assoc]
    exact exists_congr fun p => and_congr_right fun _ => and_congr_right fun _ => eq_comm
  unfold declarations restated
  simp only [declare_map, List.mem_append, hgroup]
  constructor
  · rintro ((⟨p, hp, h, rfl⟩ | ⟨p, hp, h, rfl⟩) | ⟨p, hp, h, rfl⟩)
    · exact ⟨p, hp, h, rfl, rfl⟩
    · exact ⟨p, hp, h, rfl, rfl⟩
    · exact ⟨p, hp, h, rfl, rfl⟩
  · rintro ⟨p, hp, h, hname, htype⟩
    obtain ⟨name, type, group⟩ := d
    obtain rfl : name = p.1 := hname
    obtain rfl : type = p.2.type := htype
    cases group with
    | id => exact .inl (.inl ⟨p, hp, h, rfl⟩)
    | feature => exact .inl (.inr ⟨p, hp, h, rfl⟩)
    | label => exact .inr ⟨p, hp, h, rfl⟩

/-- The descriptor of a header is read as the schema of its columns. -/
theorem parse_reconcile (h : s.reconcile header = .ok out)
    (htypes : List.Forall₂ (fun name storage => s.storageOf? name = some storage) header types) :
    parse out.write = .ok (s.restated header types) := by
  have hnames : ∀ group, out.names group = (s.columnsIn header types group).map Prod.fst := by
    intro group
    have hfst : header = (header.zip types).map Prod.fst :=
      (List.map_fst_zip htypes.length_eq.le).symm
    rw [(reconcile_lists h htypes group).1]
    conv_lhs => rw [hfst, List.filter_map]
    rfl
  have hnamed : ∀ group, Named (out.types group)
      ((s.columnsIn header types group).map fun p => p.2.type) := by
    intro group
    rw [(reconcile_lists h htypes group).2]
    refine List.forall₂_map_left_iff.2 (List.forall₂_map_right_iff.2 (List.forall₂_same.2 ?_))
    exact fun p _ => ColumnType.ofName?_storage p.2
  rw [parse_descriptor (hnamed .id) (hnamed .feature) (hnamed .label)]
  unfold restated
  rw [← hnames .id, ← hnames .feature, ← hnames .label]
  rfl

/-- The columns of a header have their storages under the schema of the header. -/
theorem resolve_restated
    (htypes : List.Forall₂ (fun name storage => s.storageOf? name = some storage) header types) :
    (s.restated header types).resolve header = .ok (types.map Storage.type) := by
  have hpair : ∀ p ∈ header.zip types, s.storageOf? p.1 = some p.2 := by
    intro p hp
    obtain ⟨i, hi⟩ := List.mem_iff_getElem?.1 hp
    obtain ⟨hname, hstorage⟩ := List.getElem?_zip_eq_some.1 hi
    obtain ⟨storage, hstorage', hs⟩ := getElem?_of_forall₂ htypes hname
    rw [hs, Option.some.inj (hstorage'.symm.trans hstorage)]
  refine resolve_eq_ok.2 ⟨List.forall₂_map_right_iff.2 ?_, fun d hd => ?_⟩
  · refine forall₂_of_getElem? htypes.length_eq fun i name storage hname hstorage => ?_
    have hmem : (name, storage) ∈ header.zip types :=
      List.mem_of_getElem? (List.getElem?_zip_eq_some.2 ⟨hname, hstorage⟩)
    obtain ⟨d, hd, -⟩ := Option.map_eq_some_iff.1 (hpair _ hmem)
    have hdeclared : name ∈ (s.restated header types).names := by
      refine List.mem_map.2 ⟨⟨name, storage.type, d.group⟩, ?_, rfl⟩
      refine mem_declarations_restated.2 ⟨_, hmem, ?_, rfl, rfl⟩
      rw [groupOf?, hd, Option.map_some]
    -- the first declaration of the name comes from a column with the same storage
    obtain ⟨first, hfirst⟩ := mem_names_iff.1 hdeclared
    obtain ⟨p, hp, -, hname', htype⟩ := mem_declarations_restated.1 (mem_of_lookup hfirst)
    have hsame : s.storageOf? name = some p.2 := by
      rw [← name_of_lookup hfirst, hname', hpair p hp]
    refine ⟨first, hfirst, ?_⟩
    rw [htype, Option.some.inj (hsame.symm.trans (hpair _ hmem))]
  · obtain ⟨p, hp, -, hname, -⟩ := mem_declarations_restated.1 hd
    rw [hname]
    exact (List.of_mem_zip hp).1

end Schema

/-! ## Tables -/

namespace Table

/-- The table that is read back: every NaN is missing. -/
def settled (t : Table) : Table :=
  { t with rows := t.rows.map fun row => row.map Value.settled }

variable {t : Table} {s : Schema}

theorem holds_settled {header : List String} {types : List Storage} {row : Row}
    (hlength : header.length = types.length) (h : List.Forall₂ Value.ReadAt types row) :
    Holds (header.zip types) (row.map Value.render) (row.map Value.settled) := by
  induction h generalizing header with
  | nil =>
    rw [List.zip_nil_right]
    exact .nil
  | @cons storage v types row hv _ ih =>
    obtain ⟨name, header, rfl⟩ := List.exists_cons_of_length_eq_add_one hlength
    exact .cons (Value.ofCell_render hv) (ih (Nat.succ.inj hlength))

/-- The records of a table are as wide as its header. -/
theorem TypedBy.length_cells {storageOf? : String → Option Storage} (htyped : t.TypedBy storageOf?)
    (hcells : t.CellsRead) : ∀ cells ∈ t.cells, cells.length = t.columns.length := by
  intro cells hmem
  have hlength : t.columns.length = t.types.length := htyped.length_eq
  obtain ⟨row, hrow, rfl⟩ := List.mem_map.1 hmem
  rw [List.length_map, ← (hcells row hrow).length_eq, hlength]

/-- The lines of a table are read as the table, under the schema of its columns. -/
theorem ofText_written (htyped : t.TypedBy s.storageOf?) (hcells : t.CellsRead)
    (hcolumns : t.columns ≠ [])
    (hmark : ∀ name ∈ t.columns.head?, name.toList.head? ≠ some Csv.mark) :
    ofText (s.restated t.columns t.types) Delimiter.comma
        (Csv.writeLine Delimiter.comma t.columns ++
          t.cells.flatMap (Csv.writeLine Delimiter.comma)) = .ok t.settled := by
  have hlength : t.columns.length = t.types.length := htyped.length_eq
  have hwidth := htyped.length_cells hcells
  obtain ⟨name, names, hcons⟩ := List.exists_cons_of_ne_nil hcolumns
  have hread := Csv.read_lines ⟨by decide, by decide⟩ hcolumns hwidth
    (d := Delimiter.comma) (by
      rw [hcons]
      exact Csv.unmarked_writeLine names (hmark name (by rw [hcons]; rfl)) _)
  have hstorages : (t.types.map Storage.type).map ColumnType.storage = t.types := by
    rw [List.map_map]
    exact List.map_id'' Storage.storage_type t.types
  unfold ofText
  rw [hread]
  refine ofSheet_eq_ok.2 ⟨_, Schema.resolve_restated htyped, rfl, hstorages.symm, ?_⟩
  unfold columnsOf settled cells
  rw [hstorages, List.map_map, List.forall₂_map_left_iff, List.forall₂_map_right_iff,
    List.forall₂_same]
  exact fun row hrow => ⟨_, rfl, holds_settled hlength (hcells row hrow)⟩

end Table

end Equijoin
