import Equijoin.Proofs.Tables.Typing

/-! # Sound tables

* `Table.Sound`: a table is rectangular, and its values are of the storages of their columns.
* `sound_load`, `Table.Sound.join`, `sound_joinTables`: so are tables that are loaded or joined.
-/

set_option autoImplicit false

namespace Equijoin

/-- A table as it should be: all rows are as wide as the header, and every value is missing or of
the storage of its column. -/
structure Table.Sound (t : Table) : Prop where
  rectangular : t.Rectangular
  wellTyped : t.WellTyped

variable {t left right result : Table}

theorem Table.Sound.row (h : t.Sound) {row : Row} (hrow : row ∈ t.rows) :
    List.Forall₂ (fun (v : Value) storage => v.Has storage) row t.types :=
  List.forall₂_iff_zip.2 ⟨(h.rectangular.2 row hrow).trans h.rectangular.1.symm,
    fun hp => h.wellTyped row hrow _ hp⟩

theorem Table.sound_of_rows (hrectangular : t.Rectangular)
    (h : ∀ row ∈ t.rows, List.Forall₂ (fun (v : Value) storage => v.Has storage) row t.types) :
    t.Sound :=
  ⟨hrectangular, fun row hrow _ hp => (List.forall₂_iff_zip.1 (h row hrow)).2 hp⟩

theorem sound_load {files : FileTree} {path : FilePath} {delimiter : UInt8} {schema : Schema}
    (h : Table.load files path delimiter schema = .ok t) : t.Sound := by
  refine Table.sound_of_rows (rectangular_load h) fun row hrow => ?_
  refine (cellsRead_load h row hrow).flip.imp fun v storage hread => ?_
  obtain ⟨raw, hraw⟩ := hread
  exact Value.has_of_ofCell hraw

theorem Table.Sound.join (hl : left.Sound) (hr : right.Sound) (leftKey rightKey : List Nat) :
    (left.join right leftKey rightKey).Sound := by
  refine Table.sound_of_rows (hl.rectangular.join hr.rectangular leftKey rightKey) fun r hrow => ?_
  obtain ⟨row, hmem, other, hother, -, -, rfl⟩ := mem_rows_join.1 hrow
  exact List.rel_append (hl.row hmem) (forall₂_pick (hr.row hother) _)

theorem sound_joinTables {tables : List Table} {keys : List (List String)}
    (hall : ∀ t ∈ tables, t.Sound) (h : joinTables tables keys = .ok result) : result.Sound :=
  joinTables_induction hall (fun _ _ leftKey rightKey hl hr => hl.join hr leftKey rightKey) h

end Equijoin
