import Equijoin.Proofs.Stages.Joining
import Equijoin.Proofs.Tables.Columns

/-! # Joins as nested loops

A join of two tables or more has the rows that one loop over each table, inside the loop over the
table before it, would find.

* `KeyedTable`: a table with the names of its key columns.
* `NestedLoops`: the table that nested loops make.
* `matching`: the places of the rows with one key, in the order of loops.
* `joinAll_eq`: what a join with further tables adds to the rows of a table.
* `alone_joinShard`: the files of a shard are joined as the tables that they hold.
* `joins_nestedLoops`: all joins.
-/

set_option autoImplicit false

namespace Equijoin

/-! ## Tables with their keys -/

/-- A table whose rows are as wide as its header, and the names of some of its columns. -/
structure KeyedTable where
  table : Table
  key : List String
  wide : ∀ row ∈ table.rows, row.length = table.columns.length
  found : ∀ name ∈ key, name ∈ table.columns

namespace KeyedTable

/-- The places of the key columns. The first column of a name is meant. -/
def places (p : KeyedTable) : List Nat := p.key.map p.table.columns.idxOf

def row (p : KeyedTable) (i : Nat) : Row := p.table.rows.getD i []

/-- The canonical key of the row at a place. -/
def keyAt (p : KeyedTable) (i : Nat) : Key := Key.ofRow (p.row i) p.places

/-- The places of the columns that are not key columns with the name that stands at the same place
of another key. -/
def kept (key₀ : List String) (p : KeyedTable) : List Nat :=
  (List.range p.table.columns.length).filter fun j =>
    !(p.key.zip key₀).any fun (name, name₀) => name == name₀ && p.table.columns.idxOf name == j

/-- What one row of each of some tables adds to a row. -/
def addition (key₀ : List String) (ps : List KeyedTable) (is : List Nat) : Row :=
  (List.zipWith (fun p i => pick (p.kept key₀) (p.row i)) ps is).flatten

/-- The row made of one row of each table. -/
def joinedRow (p₀ : KeyedTable) (rest : List KeyedTable) : List Nat → Row
  | [] => []
  | i :: is => p₀.row i ++ addition p₀.key rest is

end KeyedTable

/-- The result is what one loop over each table, inside the loop over the table before it, makes of
the rows with one key, no value of which is missing. -/
structure NestedLoops (p₀ : KeyedTable) (rest : List KeyedTable) (result : Table) : Prop where
  columns : result.columns =
    p₀.table.columns ++ rest.flatMap fun p => pick (p.kept p₀.key) p.table.columns
  types : result.types =
    p₀.table.types ++ rest.flatMap fun p => pick (p.kept p₀.key) p.table.types
  rows : ∃ found : List (List Nat), found.Pairwise (List.Lex (· < ·)) ∧
    (∀ is, is ∈ found ↔ ∃ key : Key, .null ∉ key ∧
      List.Forall₂ (fun p i => i < p.table.rows.length ∧ p.keyAt i = key) (p₀ :: rest) is) ∧
    result.rows = found.map (p₀.joinedRow rest)

namespace KeyedTable

variable {p p₀ : KeyedTable} {key₀ : List String} {rest : List KeyedTable}

theorem idxOf?_eq {name : String} {columns : List String} (h : name ∈ columns) :
    columns.idxOf? name = some (columns.idxOf name) :=
  List.findIdx?_eq_some_of_exists ⟨name, h, beq_self_eq_true name⟩

theorem positions_eq (p : KeyedTable) : positions p.table.columns p.key = .ok p.places := by
  rw [positions_eq_ok, places, List.forall₂_map_right_iff, List.forall₂_same]
  exact fun name hname => idxOf?_eq (p.found name hname)

theorem positions_table (p : KeyedTable) : p.table.positions p.key = .ok p.places := by
  unfold Table.positions
  rw [p.positions_eq]
  rfl

theorem lt_of_mem_places {i : Nat} (h : i ∈ p.places) : i < p.table.columns.length := by
  obtain ⟨name, hname, rfl⟩ := List.mem_map.1 h
  exact List.idxOf_lt_length_of_mem (p.found name hname)

/-- The columns that a join keeps, as long as the first columns of the left table are those of the
first one. -/
theorem keptPlaces_eq (p₀ p : KeyedTable) (more : List String) :
    keptPlaces (p₀.table.columns ++ more) p.table.columns p₀.places p.places = p.kept p₀.key := by
  unfold keptPlaces kept places
  refine List.filter_congr fun j _ => congrArg _ ?_
  rw [List.zip_map, List.any_map]
  rw [Bool.eq_iff_iff, List.any_eq_true, List.any_eq_true]
  refine exists_congr fun ⟨name, name₀⟩ => and_congr_right fun hmem => ?_
  obtain ⟨hname, hname₀⟩ := List.of_mem_zip hmem
  have hat : p.table.columns[p.table.columns.idxOf name]? = some name :=
    getElem?_of_idxOf? (idxOf?_eq (p.found name hname))
  have hat₀ : (p₀.table.columns ++ more)[p₀.table.columns.idxOf name₀]? = some name₀ := by
    rw [List.getElem?_append_left (List.idxOf_lt_length_of_mem (p₀.found name₀ hname₀))]
    exact getElem?_of_idxOf? (idxOf?_eq (p₀.found name₀ hname₀))
  simp only [Function.comp_apply, Prod.map_apply, hat, hat₀, Option.some_beq_some, Bool.and_comm]

/-! ## Loops over rows -/

/-- The places of rows with one key, one row of each table, in the order of nested loops. -/
def matching (key : Key) : List KeyedTable → List (List Nat)
  | [] => [[]]
  | p :: rest => ((List.range p.table.rows.length).filter fun i => p.keyAt i = key).flatMap fun i =>
      (matching key rest).map (i :: ·)

theorem mem_matching {key : Key} {ps : List KeyedTable} {is : List Nat} : is ∈ matching key ps ↔
    List.Forall₂ (fun p i => i < p.table.rows.length ∧ p.keyAt i = key) ps is := by
  induction ps generalizing is with
  | nil => simp [matching]
  | cons p ps ih =>
    simp only [matching, List.mem_flatMap, List.mem_filter, List.mem_range, decide_eq_true_eq,
      List.mem_map, List.forall₂_cons_left_iff, ih]
    constructor
    · rintro ⟨i, hi, is, his, rfl⟩
      exact ⟨i, is, hi, his, rfl⟩
    · rintro ⟨i, is, hi, his, rfl⟩
      exact ⟨i, hi, is, his, rfl⟩

/-- Loops over places in their order, with sorted tuples inside, run through sorted tuples. -/
theorem sorted_flatMap {is : List Nat} {inside : Nat → List (List Nat)}
    (houter : is.Pairwise (· < ·)) (hinside : ∀ i, (inside i).Pairwise (List.Lex (· < ·))) :
    (is.flatMap fun i => (inside i).map (i :: ·)).Pairwise (List.Lex (· < ·)) := by
  rw [List.pairwise_flatMap]
  refine ⟨fun i _ => List.pairwise_map.2 ((hinside i).imp .cons), houter.imp fun hij => ?_⟩
  intro is his js hjs
  obtain ⟨is, -, rfl⟩ := List.mem_map.1 his
  obtain ⟨js, -, rfl⟩ := List.mem_map.1 hjs
  exact .rel hij

theorem matching_sorted (key : Key) (ps : List KeyedTable) :
    (matching key ps).Pairwise (List.Lex (· < ·)) := by
  induction ps with
  | nil => exact List.pairwise_singleton _ _
  | cons p ps ih => exact sorted_flatMap (List.pairwise_lt_range.filter _) fun _ => ih

theorem rows_eq_map (p : KeyedTable) :
    p.table.rows = (List.range p.table.rows.length).map p.row := by
  refine List.ext_getElem (by simp) fun i hi _ => ?_
  simp [row, List.getElem?_eq_getElem hi]

/-- The rows whose keys are as asked for, by their places. -/
theorem filter_rows (p : KeyedTable) (q : Key → Bool) :
    (p.table.rows.filter fun row => q (Key.ofRow row p.places)) =
      ((List.range p.table.rows.length).filter fun i => q (p.keyAt i)).map p.row := by
  conv_lhs => rw [rows_eq_map, List.filter_map]
  rfl

/-- One loop more is a loop over the rows with the key. -/
theorem map_matching_cons (key₀ : List String) (key : Key) (p : KeyedTable)
    (rest : List KeyedTable) (row : Row) :
    (matching key (p :: rest)).map (row ++ addition key₀ (p :: rest) ·) =
      (p.table.rows.filter fun other => Key.ofRow other p.places = key).flatMap fun other =>
        (matching key rest).map ((row ++ pick (p.kept key₀) other) ++ addition key₀ rest ·) := by
  rw [filter_rows p (decide <| · = key), matching, List.map_flatMap, List.flatMap_map]
  refine List.flatMap_congr fun i _ => ?_
  rw [List.map_map]
  exact List.map_congr_left fun is _ => (List.append_assoc _ _ _).symm

/-! ## The rows of a join -/

theorem rows_join_eq (left right : Table) (leftKey rightKey : List Nat) :
    (left.join right leftKey rightKey).rows =
      (left.rows.filter fun row => (Key.ofRow row leftKey).isJoinable).flatMap fun row =>
        (right.rows.filter (Key.ofRow · rightKey = Key.ofRow row leftKey)).map
          (row ++ pick (keptPlaces left.columns right.columns leftKey rightKey) ·) := by
  rw [rows_join]
  induction left.rows with
  | nil => rfl
  | cons row rows ih =>
    rw [List.flatMap_cons, ih, List.filter_cons]
    split
    · rw [List.flatMap_cons]
    · rw [List.nil_append]

section Rows

variable {left : Table} {more : List String}

/-- The rows of a table have all key columns of another one, in the places that they have there. -/
def Covers (left : Table) (p₀ : KeyedTable) : Prop :=
  ∀ row ∈ left.rows, ∀ i ∈ p₀.places, i < row.length

theorem covers_table (p₀ : KeyedTable) : Covers p₀.table p₀ := by
  intro row hrow i hi
  rw [p₀.wide row hrow]
  exact lt_of_mem_places hi

theorem mem_join_rows (hcover : Covers left p₀) {row : Row}
    (h : row ∈ (left.join p.table p₀.places p.places).rows) :
    (∀ i ∈ p₀.places, i < row.length) ∧ (Key.ofRow row p₀.places).isJoinable = true := by
  obtain ⟨row, hrow, other, -, hjoin, -, rfl⟩ := mem_rows_join.1 h
  rw [ofRow_append (hcover row hrow)]
  refine ⟨fun i hi => ?_, hjoin⟩
  rw [List.length_append]
  exact Nat.lt_add_right _ (hcover row hrow i hi)

/-- Adding rows to the rows of a join is one loop more for the rows of its left table. -/
theorem extend_join (hcover : Covers left p₀) (hcolumns : left.columns = p₀.table.columns ++ more) :
    ((left.join p.table p₀.places p.places).rows.flatMap fun row =>
        (matching (Key.ofRow row p₀.places) rest).map (row ++ addition p₀.key rest ·)) =
      (left.rows.filter fun row => (Key.ofRow row p₀.places).isJoinable).flatMap fun row =>
        (matching (Key.ofRow row p₀.places) (p :: rest)).map
          (row ++ addition p₀.key (p :: rest) ·) := by
  rw [rows_join_eq, hcolumns, keptPlaces_eq, List.flatMap_assoc]
  refine List.flatMap_congr fun row hrow => ?_
  have hplaces := hcover row (List.mem_filter.1 hrow).1
  rw [map_matching_cons, List.flatMap_map]
  refine List.flatMap_congr fun other _ => ?_
  rw [ofRow_append hplaces]

/-- The join of a table with further tables. If there are none, all rows of the table may match. -/
theorem joinAll_eq (hcover : Covers left p₀) (hcolumns : left.columns = p₀.table.columns ++ more)
    (hjoin : rest = [] → ∀ row ∈ left.rows, (Key.ofRow row p₀.places).isJoinable = true) :
    left.joinAll p₀.places (rest.map fun p => (p.table, p.key)) = .ok
      { columns := left.columns ++ rest.flatMap fun p => pick (p.kept p₀.key) p.table.columns
        types := left.types ++ rest.flatMap fun p => pick (p.kept p₀.key) p.table.types
        rows :=
          (left.rows.filter fun row => (Key.ofRow row p₀.places).isJoinable).flatMap fun row =>
            (matching (Key.ofRow row p₀.places) rest).map (row ++ addition p₀.key rest ·) } := by
  induction rest generalizing left more with
  | nil => simp [Table.joinAll, matching, addition, List.filter_eq_self.2 (hjoin rfl)]
  | cons p rest ih =>
    have hkept : keptPlaces left.columns p.table.columns p₀.places p.places = p.kept p₀.key := by
      rw [hcolumns, keptPlaces_eq]
    have hheader : (left.join p.table p₀.places p.places).columns =
        p₀.table.columns ++ (more ++ pick (p.kept p₀.key) p.table.columns) := by
      rw [← List.append_assoc, ← hcolumns, ← hkept]
      rfl
    have hrows : ∀ row ∈ (left.join p.table p₀.places p.places).rows,
        (∀ i ∈ p₀.places, i < row.length) ∧ (Key.ofRow row p₀.places).isJoinable = true :=
      fun row hrow => mem_join_rows hcover hrow
    rw [List.map_cons, joinAll_cons, p.positions_table, ok_bind,
      ih (fun row hrow => (hrows row hrow).1) hheader (fun _ row hrow => (hrows row hrow).2),
      List.filter_eq_self.2 fun row hrow => (hrows row hrow).2, extend_join hcover hcolumns]
    simp only [Table.join, hkept, List.flatMap_cons, List.append_assoc]

end Rows

theorem null_not_mem_iff {key : Key} : .null ∉ key ↔ key.isJoinable = true := by
  simp [Key.isJoinable]

/-- Tables are joined as nested loops would join them. -/
theorem joinTables_loops (harity : ∀ q ∈ p :: rest, q.key.length = p₀.key.length) :
    ∃ result, joinTables ((p₀ :: p :: rest).map table) ((p₀ :: p :: rest).map key) = .ok result ∧
      NestedLoops p₀ (p :: rest) result := by
  have hkeys : unequalKeys? (p₀.key :: (p :: rest).map key) = none := by
    refine unequalKeys?_eq_none.2 fun k hk => ?_
    obtain ⟨q, hq, rfl⟩ := List.mem_map.1 hk
    exact harity q hq
  have hfurther : p :: rest = [] →
      ∀ row ∈ p₀.table.rows, (Key.ofRow row p₀.places).isJoinable = true := nofun
  change ∃ result, joinTables (p₀.table :: (p :: rest).map table)
    (p₀.key :: (p :: rest).map key) = .ok result ∧ _
  rw [joinTables_cons (by simp) hkeys, p₀.positions_table, ok_bind, List.zip_map',
    joinAll_eq (covers_table p₀) (List.append_nil _).symm hfurther, filter_rows p₀ Key.isJoinable,
    List.flatMap_map]
  refine ⟨_, rfl, rfl, rfl, ?_⟩
  refine ⟨((List.range p₀.table.rows.length).filter fun i => (p₀.keyAt i).isJoinable).flatMap
    fun i => (matching (p₀.keyAt i) (p :: rest)).map (i :: ·),
    sorted_flatMap (List.pairwise_lt_range.filter _) fun i => matching_sorted _ _, fun is => ?_, ?_⟩
  · simp only [List.mem_flatMap, List.mem_filter, List.mem_range, List.mem_map, mem_matching,
      null_not_mem_iff]
    constructor
    · rintro ⟨i, ⟨hi, hjoin⟩, is, his, rfl⟩
      exact ⟨p₀.keyAt i, hjoin, .cons ⟨hi, rfl⟩ his⟩
    · rintro ⟨key, hjoin, h⟩
      obtain ⟨i, is, ⟨hi, rfl⟩, his, rfl⟩ := List.forall₂_cons_left_iff.1 h
      exact ⟨i, ⟨hi, hjoin⟩, is, his, rfl⟩
  · rw [List.map_flatMap]
    refine List.flatMap_congr fun i _ => ?_
    rw [List.map_map]
    rfl

end KeyedTable

/-! ## The files of a shard -/

/-- The file of the input can be loaded, and holds the table. -/
def ShardInput.Loads (files : FileTree) (input : ShardInput) (t : Table) : Prop :=
  Table.load files input.path input.delimiter input.schema = .ok t

section Shards

variable {files : FileTree} {inputs : List ShardInput} {tables : List Table}

theorem alone_load {α : Type} {input : ShardInput} {t : Table} (h : input.Loads files t)
    (next : Table × List Nat → Task FileTree α) : (input.load >>= next).alone false files =
      match t.positions input.key with
      | .ok places => (next (t, places)).alone false files
      | .error fault => some (.error fault, files) := by
  have hload : (input.load >>= next).alone false files =
      (((Task.ofOutcome (Table.load files input.path input.delimiter input.schema)).bind
        fun table => (Task.ofOutcome (table.positions input.key)).bind
          fun places => Task.succeed (table, places)).bind next).alone false files := rfl
  rw [hload, h]
  cases hplaces : t.positions input.key with
  | error fault => simp [Task.ofOutcome, hplaces]
  | ok places => simp [Task.ofOutcome, Task.succeed, hplaces]

/-- Parts that can all be loaded are joined as their tables are. -/
theorem alone_joinParts (h : List.Forall₂ (ShardInput.Loads files) inputs tables)
    (leftKey : List Nat) (left : Table) : (joinParts leftKey left inputs).alone false files =
      some (left.joinAll leftKey (tables.zip (inputs.map ShardInput.key)), files) := by
  induction h generalizing left with
  | nil => rfl
  | @cons input t inputs tables hinput _ ih =>
    have hcheck : (joinParts leftKey left (input :: inputs)).alone false files =
        (input.load >>= fun loaded =>
          joinParts leftKey (left.join loaded.1 leftKey loaded.2) inputs).alone false files := rfl
    rw [hcheck, alone_load hinput, List.map_cons, List.zip_cons_cons, joinAll_cons]
    cases hplaces : t.positions input.key with
    | error fault => rfl
    | ok places => rw [ok_bind, ← ih]

theorem alone_joinShard (hne : inputs ≠ [])
    (h : List.Forall₂ (ShardInput.Loads files) inputs tables) :
    (joinShard inputs).alone false files =
      some (joinTables tables (inputs.map ShardInput.key), files) := by
  cases h with
  | nil => exact absurd rfl hne
  | @cons input t inputs tables hinput hrest =>
    have hlength : tables.length = (inputs.map ShardInput.key).length := by
      rw [List.length_map, hrest.length_eq]
    simp only [joinShard]
    cases hkeys : unequalKeys? ((input :: inputs).map ShardInput.key) with
    | some fault =>
      have hfault : joinTables (t :: tables) ((input :: inputs).map ShardInput.key) =
          .error fault := by
        unfold joinTables
        rw [hkeys]
        rw [if_neg (by simpa using hlength)]
        rfl
      rw [hfault]
      rfl
    | none =>
      rw [List.map_cons, joinTables_cons hlength hkeys, alone_load hinput]
      cases hplaces : t.positions input.key with
      | error fault => rfl
      | ok places => rw [ok_bind, ← alone_joinParts hrest]

end Shards

/-! ## Joins -/

/-- Two tables or more are joined as nested loops would join them, and one table is its own join.
The files of a shard, if there are any, are joined as the tables that they hold. -/
theorem joins_nestedLoops :
    (∀ (p₀ : KeyedTable) (rest : List KeyedTable), (∀ p ∈ rest, p.key.length = p₀.key.length) →
      ∃ result, joinTables ((p₀ :: rest).map KeyedTable.table) ((p₀ :: rest).map KeyedTable.key) =
          .ok result ∧
        (rest = [] → result = p₀.table) ∧ (rest ≠ [] → NestedLoops p₀ rest result)) ∧
      ∀ (files : FileTree) (inputs : List ShardInput) (tables : List Table),
        List.Forall₂ (ShardInput.Loads files) inputs tables →
          (joinShard inputs).alone false files =
            some (if inputs = [] then .error (.config .noShardInput)
              else joinTables tables (inputs.map ShardInput.key), files) := by
  constructor
  · intro p₀ rest harity
    cases rest with
    | nil =>
      refine ⟨p₀.table, ?_, fun _ => rfl, fun hne => absurd rfl hne⟩
      rw [List.map_singleton, List.map_singleton, joinTables_cons rfl
        (unequalKeys?_eq_none.2 fun k hk => absurd hk List.not_mem_nil), p₀.positions_table]
      rfl
    | cons p rest =>
      obtain ⟨result, hjoin, hloops⟩ := KeyedTable.joinTables_loops harity
      exact ⟨result, hjoin, nofun, fun _ => hloops⟩
  · intro files inputs tables hloads
    by_cases hne : inputs = []
    · subst hne
      rfl
    · rw [if_neg hne, alone_joinShard hne hloads]

/-- Two rows, the second of which has no key. -/
def leftTable : KeyedTable where
  table := ⟨["id", "x"], [.int64, .text], [[.int 1, .text "a"], [.null, .text "b"]]⟩
  key := ["id"]
  wide := by decide
  found := by decide

/-- Two rows with one key. -/
def rightTable : KeyedTable where
  table := ⟨["id", "y"], [.int64, .text], [[.int 1, .text "c"], [.int 1, .text "d"]]⟩
  key := ["id"]
  wide := by decide
  found := by decide

/-- Two tables are joined, and the file of one of them is loaded. -/
theorem joins_nestedLoops_pair :
    (∃ result, joinTables [leftTable.table, rightTable.table] [["id"], ["id"]] = .ok result ∧
      NestedLoops leftTable [rightTable] result) ∧
      (joinShard [⟨"a.csv", Delimiter.comma, ⟨["id"], [], [], [.int], [], []⟩, ["id"]⟩]).alone false
          (FileTree.empty.put [.given "a.csv"] (.file (Utf8.encode "id\n7\n"))) =
        some (.ok ⟨["id"], [.int64], [[.int 7]]⟩,
          FileTree.empty.put [.given "a.csv"] (.file (Utf8.encode "id\n7\n"))) := by
  constructor
  · obtain ⟨result, hjoin, -, hloops⟩ := joins_nestedLoops.1 leftTable [rightTable] (by decide)
    exact ⟨result, hjoin, hloops (List.cons_ne_nil _ _)⟩
  · rw [joins_nestedLoops.2 _ _ [⟨["id"], [.int64], [[.int 7]]⟩] (.cons (by
      unfold ShardInput.Loads
      decide +kernel) .nil)]
    rfl

/-- One row, without a key. -/
def keylessTable : KeyedTable where
  table := ⟨["id"], [.text], [[.null]]⟩
  key := ["id"]
  wide := by decide
  found := by decide

/-- A single table keeps its rows without a key, which a loop would not find. -/
theorem join_keyless :
    joinTables [keylessTable.table] [keylessTable.key] = .ok keylessTable.table ∧
      ¬ NestedLoops keylessTable [] keylessTable.table := by
  refine ⟨rfl, fun h => ?_⟩
  obtain ⟨found, -, hfound, hrows⟩ := h.rows
  have hlength : found.length = 1 := by
    rw [← List.length_map (keylessTable.joinedRow []), ← hrows]
    rfl
  obtain ⟨is, hmem⟩ := List.exists_mem_of_length_pos (by omega : 0 < found.length)
  obtain ⟨key, hnull, hkeys⟩ := (hfound is).1 hmem
  obtain ⟨i, is, ⟨hi, rfl⟩, -, rfl⟩ := List.forall₂_cons_left_iff.1 hkeys
  obtain rfl : i = 0 := Nat.lt_one_iff.1 hi
  exact hnull (by decide)

end Equijoin
