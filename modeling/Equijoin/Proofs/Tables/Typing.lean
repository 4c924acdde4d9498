import Equijoin.Proofs.Tables.Merging
import Equijoin.Proofs.Tables.Shards

/-! # The types of a joined table

A join keeps its columns, their storages and its cells in step.

* `Value.ReadAt`: the value of a cell that was read at a storage.
* `Table.TypedBy`: every column has the storage of its name.
* `Table.CellsRead`: every value was read from a cell at the storage of its column.
* `Table.TypedBy.join`, `Table.CellsRead.join`: both hold of a join if they hold of its tables.
* `alike_joinTables`: the columns of a join depend on those of its tables only.
-/

set_option autoImplicit false

namespace Equijoin

/-- A cell was read as the value, at the storage. -/
def Value.ReadAt (storage : Storage) (v : Value) : Prop :=
  ∃ raw, Value.ofCell storage raw = .ok v

namespace Table

/-- Every column has the storage of its name. -/
def TypedBy (storageOf? : String → Option Storage) (t : Table) : Prop :=
  List.Forall₂ (fun name storage => storageOf? name = some storage) t.columns t.types

/-- Every value was read from a cell, at the storage of its column. -/
def CellsRead (t : Table) : Prop :=
  ∀ row ∈ t.rows, List.Forall₂ Value.ReadAt t.types row

end Table

variable {t : Table} {storageOf? : String → Option Storage}

/-! ## Tables of files -/

theorem typedBy_load {files : FileTree} {path : FilePath} {delimiter : UInt8} {schema : Schema}
    (h : Table.load files path delimiter schema = .ok t) : t.TypedBy schema.storageOf? := by
  obtain ⟨sheet, -, hsheet⟩ := Table.load_eq_ok.1 h
  obtain ⟨types, htypes, hcolumns, hstorages, -⟩ := Table.ofSheet_eq_ok.1 hsheet
  unfold Table.TypedBy
  rw [hcolumns, hstorages, List.forall₂_map_right_iff]
  refine (resolve_eq_ok.1 htypes).1.imp fun name type hd => ?_
  obtain ⟨d, hd, rfl⟩ := hd
  rw [Schema.storageOf?, hd, Option.map_some]

theorem readAt_of_holds {columns : List (String × Storage)} {cells : List String} {row : Row}
    (hlength : cells.length = columns.length) (h : Table.Holds columns cells row) :
    List.Forall₂ Value.ReadAt (columns.map Prod.snd) row := by
  unfold Table.Holds at h
  induction columns generalizing cells row with
  | nil =>
    rw [List.zip_nil_left, List.forall₂_nil_left_iff] at h
    rw [h]
    exact .nil
  | cons c columns ih =>
    cases cells with
    | nil => cases hlength
    | cons raw cells =>
      rw [List.zip_cons_cons] at h
      obtain ⟨v, rest, hv, hrest, rfl⟩ := List.forall₂_cons_left_iff.1 h
      exact .cons ⟨raw, hv⟩ (ih (by simpa using hlength) hrest)

theorem cellsRead_load {files : FileTree} {path : FilePath} {delimiter : UInt8} {schema : Schema}
    (h : Table.load files path delimiter schema = .ok t) : t.CellsRead := by
  obtain ⟨sheet, hread, hsheet⟩ := Table.load_eq_ok.1 h
  obtain ⟨types, htypes, -, hstorages, hrows⟩ := Table.ofSheet_eq_ok.1 hsheet
  have hlength := length_columnsOf (length_resolve htypes)
  have hsnd : (Table.columnsOf sheet.header types).map Prod.snd = t.types := by
    rw [hstorages, Table.columnsOf, List.map_snd_zip]
    rw [List.length_map, length_resolve htypes]
  intro row hrow
  obtain ⟨record, hrecord, cells, rfl, hcells⟩ := exists_left_of_forall₂ hrows hrow
  rw [← hsnd]
  refine readAt_of_holds ?_ hcells
  rw [width_of_readSheet hread hrecord, hlength]

/-! ## Joined tables -/

variable {left right left' right' result result' : Table} {leftKey rightKey : List Nat}

theorem forall₂_pick {α β : Type} {R : α → β → Prop} {xs : List α} {ys : List β}
    (h : List.Forall₂ R xs ys) (places : List Nat) :
    List.Forall₂ R (pick places xs) (pick places ys) := by
  unfold pick
  induction places with
  | nil => exact .nil
  | cons i places ih =>
    rw [List.filterMap_cons, List.filterMap_cons]
    by_cases hi : i < xs.length
    · have hi' : i < ys.length := h.length_eq ▸ hi
      rw [List.getElem?_eq_getElem hi, List.getElem?_eq_getElem hi']
      exact .cons ((List.forall₂_iff_get.1 h).2 i hi hi') ih
    · have hi' : ¬ i < ys.length := h.length_eq ▸ hi
      rw [List.getElem?_eq_none (by omega), List.getElem?_eq_none (by omega)]
      exact ih

theorem Table.TypedBy.join (hl : left.TypedBy storageOf?) (hr : right.TypedBy storageOf?)
    (leftKey rightKey : List Nat) : (left.join right leftKey rightKey).TypedBy storageOf? :=
  List.rel_append hl (forall₂_pick hr _)

theorem Table.CellsRead.join (hl : left.CellsRead) (hr : right.CellsRead)
    (leftKey rightKey : List Nat) : (left.join right leftKey rightKey).CellsRead := by
  intro row hrow
  obtain ⟨row, hmem, other, hother, -, -, rfl⟩ := mem_rows_join.1 hrow
  exact List.rel_append (hl row hmem) (forall₂_pick (hr other hother) _)

/-- What every join of two tables keeps holds of a join of tables. -/
theorem joinTables_induction {P : Table → Prop} {tables : List Table} {keys : List (List String)}
    (hall : ∀ t ∈ tables, P t) (hstep : ∀ (left right : Table) (leftKey rightKey : List Nat),
      P left → P right → P (left.join right leftKey rightKey))
    (h : joinTables tables keys = .ok result) : P result := by
  obtain ⟨-, -, first, key, rest, places, hzip, -, h⟩ := joinTables_eq_ok.1 h
  have hmem : ∀ p ∈ (first, key) :: rest, P p.1 := by
    rw [← hzip]
    exact fun p hp => hall p.1 (List.of_mem_zip hp).1
  refine joinAll_induction (fun l r k hr hl => ?_) (hmem (first, key) List.mem_cons_self) h
  obtain ⟨p, hp, rfl⟩ := List.mem_map.1 hr
  exact hstep l p.1 _ k hl (hmem p (List.mem_cons_of_mem _ hp))

/-! ## Columns -/

theorem alike_joinAll {rest rest' : List (Table × List String)}
    (hleft : left.columns = left'.columns)
    (hrest : List.Forall₂ (fun p p' => p.1.columns = p'.1.columns ∧ p.2 = p'.2) rest rest')
    (h : left.joinAll leftKey rest = .ok result) (h' : left'.joinAll leftKey rest' = .ok result') :
    result.columns = result'.columns := by
  induction hrest generalizing left left' with
  | nil =>
    cases h
    cases h'
    exact hleft
  | @cons p p' rest rest' hp _ ih =>
    obtain ⟨right, key⟩ := p
    obtain ⟨right', key'⟩ := p'
    obtain ⟨hcolumns, hkey⟩ := hp
    dsimp only at hcolumns hkey
    rw [joinAll_cons] at h h'
    obtain ⟨rightKey, hpositions, h⟩ := bind_eq_ok.1 h
    obtain ⟨rightKey', hpositions', h'⟩ := bind_eq_ok.1 h'
    have hsame : rightKey = rightKey' := by
      unfold Table.positions at hpositions hpositions'
      rw [hcolumns, hkey, hpositions'] at hpositions
      exact (Except.ok.inj hpositions).symm
    refine ih ?_ h h'
    simp only [Table.join, hleft, hcolumns, hsame]

theorem zip_keys {R : Table → Table → Prop} {tables tables' : List Table}
    (h : List.Forall₂ R tables tables') (keys : List (List String)) :
    List.Forall₂ (fun p p' => R p.1 p'.1 ∧ p.2 = p'.2) (tables.zip keys) (tables'.zip keys) := by
  induction h generalizing keys with
  | nil => exact .nil
  | cons ht _ ih =>
    cases keys with
    | nil => exact .nil
    | cons key keys => exact .cons ⟨ht, rfl⟩ (ih keys)

/-- The columns of a join depend on those of its tables only. -/
theorem alike_joinTables {tables tables' : List Table} {keys : List (List String)}
    (hall : List.Forall₂ (fun t t' => t.columns = t'.columns) tables tables')
    (h : joinTables tables keys = .ok result) (h' : joinTables tables' keys = .ok result') :
    result.columns = result'.columns := by
  obtain ⟨-, -, first, key, rest, places, hzip, hpositions, h⟩ := joinTables_eq_ok.1 h
  obtain ⟨-, -, first', key', rest', places', hzip', hpositions', h'⟩ := joinTables_eq_ok.1 h'
  have hpairs := zip_keys hall keys
  rw [hzip, hzip'] at hpairs
  obtain ⟨⟨hcolumns, hkey⟩, hrest⟩ := List.forall₂_cons.1 hpairs
  dsimp only at hcolumns hkey
  have hsame : places = places' := by
    unfold Table.positions at hpositions hpositions'
    rw [hcolumns, hkey, hpositions'] at hpositions
    exact (Except.ok.inj hpositions).symm
  subst hsame
  exact alike_joinAll hcolumns hrest h h'

end Equijoin
