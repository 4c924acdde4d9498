import Mathlib.Data.List.Basic
import Equijoin.Join
import Equijoin.Proofs.Tables.Schemas

/-! # Joins by their rows

* `matches_getD`: the rows that a key finds are those with that key.
* `mem_rows_join`: the rows of a join are the pairs of rows with equal keys, none of whose values is
  missing.
* `Table.Rectangular.join`, `mem_columns_join`: the shape of a join.
* `rectangular_joinAll`, `mem_columns_joinAll`: the shape of the join of all tables.
* `Table.shardOf`, `joinAll_shardOf`: joining the parts of tables in one shard gives the part of
  their join in that shard.
* `joinTables_only`, `keys_of_joinTables`: rows of all tables are joined if they have one key, no
  value of which is missing.
-/

set_option autoImplicit false

namespace Equijoin

/-! ## Matches -/

/-- The rows that a key finds, in their order. -/
theorem matches_getD (places : List Nat) (rows : List Row) (key : Key) :
    (Matches.ofRows places rows).getD key [] =
      if key.isJoinable then rows.filter fun row => Key.ofRow row places = key else [] := by
  unfold Matches.ofRows
  induction rows with
  | nil => rw [List.foldr_nil, Std.HashMap.getD_empty, List.filter_nil, ite_self]
  | cons row rows ih =>
    rw [List.foldr_cons, Matches.add]
    by_cases hjoin : (Key.ofRow row places).isJoinable
    · rw [if_pos hjoin, Std.HashMap.getD_insert]
      by_cases hkey : Key.ofRow row places = key
      · subst hkey
        rw [if_pos hjoin] at ih
        simp [ih, hjoin]
      · have hne : (Key.ofRow row places == key) = false := by simpa using hkey
        simp only [hne, Bool.false_eq_true, if_false, ih, List.filter_cons, hkey, decide_false]
    · rw [if_neg hjoin, ih]
      by_cases hkey : Key.ofRow row places = key
      · subst hkey
        rw [if_neg hjoin, if_neg hjoin]
      · simp only [List.filter_cons, hkey, decide_false, Bool.false_eq_true, if_false]

/-! ## Rows -/

variable {left right t : Table} {leftKey rightKey : List Nat}

theorem rows_join (left right : Table) (leftKey rightKey : List Nat) :
    (left.join right leftKey rightKey).rows = left.rows.flatMap fun row =>
      if (Key.ofRow row leftKey).isJoinable then
        (right.rows.filter fun other => Key.ofRow other rightKey = Key.ofRow row leftKey).map
          fun other => row ++ pick (keptPlaces left.columns right.columns leftKey rightKey) other
      else [] := by
  unfold Table.join
  dsimp only
  congr 1
  funext row
  rw [matches_getD]
  split <;> rfl

theorem mem_rows_join {r : Row} :
    r ∈ (left.join right leftKey rightKey).rows ↔
      ∃ row ∈ left.rows, ∃ other ∈ right.rows, (Key.ofRow row leftKey).isJoinable = true ∧
        Key.ofRow other rightKey = Key.ofRow row leftKey ∧
        r = row ++ pick (keptPlaces left.columns right.columns leftKey rightKey) other := by
  rw [rows_join, List.mem_flatMap]
  constructor
  · rintro ⟨row, hrow, h⟩
    split at h
    · rename_i hjoin
      obtain ⟨other, hother, rfl⟩ := List.mem_map.1 h
      obtain ⟨hmem, hkey⟩ := List.mem_filter.1 hother
      exact ⟨row, hrow, other, hmem, hjoin, by simpa using hkey, rfl⟩
    · cases h
  · rintro ⟨row, hrow, other, hother, hjoin, hkey, rfl⟩
    refine ⟨row, hrow, ?_⟩
    rw [if_pos hjoin]
    exact List.mem_map.2 ⟨other, List.mem_filter.2 ⟨hother, by simpa using hkey⟩, rfl⟩

/-! ## Shape -/

theorem lt_of_mem_keptPlaces {ls rs : List String} {j : Nat}
    (h : j ∈ keptPlaces ls rs leftKey rightKey) : j < rs.length :=
  List.mem_range.1 (List.mem_filter.1 h).1

theorem length_pick {α : Type} {places : List Nat} {xs : List α} (h : ∀ j ∈ places, j < xs.length) :
    (pick places xs).length = places.length := by
  unfold pick
  induction places with
  | nil => rfl
  | cons j places ih =>
    rw [List.filterMap_cons, List.getElem?_eq_getElem (h j (by simp))]
    simpa using ih fun k hk => h k (by simp [hk])

theorem Table.Rectangular.join (hl : left.Rectangular) (hr : right.Rectangular)
    (leftKey rightKey : List Nat) : (left.join right leftKey rightKey).Rectangular := by
  have hkept : ∀ {α : Type} (xs : List α), xs.length = right.columns.length →
      (pick (keptPlaces left.columns right.columns leftKey rightKey) xs).length =
        (keptPlaces left.columns right.columns leftKey rightKey).length :=
    fun xs hxs => length_pick fun j hj => by rw [hxs]; exact lt_of_mem_keptPlaces hj
  refine ⟨?_, fun r hrow => ?_⟩
  · simp only [Table.join, List.length_append, hkept _ rfl, hkept _ hr.1, hl.1]
  · obtain ⟨row, hmem, other, hother, -, -, rfl⟩ := mem_rows_join.1 hrow
    simp only [Table.join, List.length_append, hkept _ rfl, hkept _ (hr.2 other hother),
      hl.2 row hmem]

/-- A join has the columns of both tables. -/
theorem mem_columns_join {name : String} :
    name ∈ (left.join right leftKey rightKey).columns ↔
      name ∈ left.columns ∨ name ∈ right.columns := by
  simp only [Table.join, List.mem_append, pick, List.mem_filterMap]
  constructor
  · rintro (h | ⟨j, -, h⟩)
    · exact .inl h
    · exact .inr (List.mem_of_getElem? h)
  · rintro (h | h)
    · exact .inl h
    · obtain ⟨j, hj⟩ := List.mem_iff_getElem?.1 h
      by_cases hkept : j ∈ keptPlaces left.columns right.columns leftKey rightKey
      · exact .inr ⟨j, hkept, hj⟩
      · -- a column that is left out has the name of its left counterpart
        have hlt : j < right.columns.length := (List.getElem?_eq_some_iff.1 hj).1
        have hany : (rightKey.zip leftKey).any (fun p =>
            p.1 == j && right.columns[p.1]? == left.columns[p.2]?) = true := by
          by_contra hnot
          refine hkept (List.mem_filter.2 ⟨List.mem_range.2 hlt, ?_⟩)
          rw [Bool.not_eq_true']
          exact Bool.eq_false_iff.2 hnot
        obtain ⟨⟨r, l⟩, -, hp⟩ := List.any_eq_true.1 hany
        simp only [Bool.and_eq_true, beq_iff_eq] at hp
        obtain ⟨rfl, heq⟩ := hp
        rw [hj] at heq
        exact .inl (List.mem_of_getElem? heq.symm)

/-! ## Shards -/

/-- The part of a table in a shard, by the key at some places. -/
def Table.shardOf (t : Table) (places : List Nat) (count shard : Nat) : Table :=
  { t with rows := t.rows.filter fun row => (Key.ofRow row places).shard count == shard }

theorem ofRow_append {row rest : Row} {places : List Nat} (h : ∀ i ∈ places, i < row.length) :
    Key.ofRow (row ++ rest) places = Key.ofRow row places := by
  unfold Key.ofRow
  refine List.map_congr_left fun i hi => ?_
  rw [List.getElem?_append_left (h i hi)]

theorem flatMap_filter_of_forall {α β : Type} {p : α → Bool} {q : β → Bool} {f g : α → List β}
    (xs : List α) (hpos : ∀ x ∈ xs, p x = true → g x = (f x).filter q)
    (hneg : ∀ x ∈ xs, p x = false → (f x).filter q = []) :
    (xs.filter p).flatMap g = (xs.flatMap f).filter q := by
  induction xs with
  | nil => rfl
  | cons x xs ih =>
    have hrest := ih (fun y hy => hpos y (by simp [hy])) fun y hy => hneg y (by simp [hy])
    rw [List.flatMap_cons, List.filter_append, List.filter_cons]
    cases hx : p x with
    | true => rw [if_pos rfl, List.flatMap_cons, hpos x (by simp) hx, hrest]
    | false => rw [if_neg (by simp), hneg x (by simp) hx, hrest, List.nil_append]

theorem join_shardOf (count shard : Nat)
    (hplaces : ∀ row ∈ left.rows, ∀ i ∈ leftKey, i < row.length) :
    (left.shardOf leftKey count shard).join (right.shardOf rightKey count shard) leftKey rightKey =
      (left.join right leftKey rightKey).shardOf leftKey count shard := by
  have hrows : ((left.shardOf leftKey count shard).join (right.shardOf rightKey count shard) leftKey
      rightKey).rows = ((left.join right leftKey rightKey).rows).filter
        fun row => (Key.ofRow row leftKey).shard count == shard := by
    rw [rows_join, rows_join]
    refine flatMap_filter_of_forall left.rows (fun row hrow hshard => ?_) fun row hrow hshard => ?_
    · -- a row of this shard finds rows of this shard only
      split
      · have hself : ∀ others : List Row, ((others.map fun other => row ++
            pick (keptPlaces left.columns right.columns leftKey rightKey) other).filter
              fun row => (Key.ofRow row leftKey).shard count == shard) =
            others.map fun other => row ++
              pick (keptPlaces left.columns right.columns leftKey rightKey) other := by
          refine fun others => List.filter_eq_self.2 fun r hr => ?_
          obtain ⟨other, -, rfl⟩ := List.mem_map.1 hr
          rw [ofRow_append (hplaces row hrow), hshard]
        rw [hself]
        refine congrArg _ ?_
        simp only [Table.shardOf, List.filter_filter]
        refine List.filter_congr fun other _ => ?_
        by_cases hkey : Key.ofRow other rightKey = Key.ofRow row leftKey
        · rw [hkey, hshard, Bool.and_true]
        · simp only [hkey, decide_false, Bool.false_and]
      · rfl
    · refine List.filter_eq_nil_iff.2 fun r hr => ?_
      split at hr
      · obtain ⟨other, -, rfl⟩ := List.mem_map.1 hr
        rw [ofRow_append (hplaces row hrow), hshard]
        simp
      · cases hr
  unfold Table.shardOf at hrows ⊢
  rw [← hrows]
  rfl

/-! ## All tables -/

theorem positions_lt {key : List String} {places : List Nat} (h : t.positions key = .ok places)
    (i : Nat) (hi : i ∈ places) : i < t.columns.length := by
  obtain ⟨name, -, hidx⟩ := exists_left_of_forall₂ (positions_eq_ok.1 (mapError_eq_ok.1 h)) hi
  exact (List.findIdx?_eq_some_iff_getElem.1 hidx).1

theorem joinAll_cons (leftKey : List Nat) (left right : Table) (key : List String)
    (rest : List (Table × List String)) : left.joinAll leftKey ((right, key) :: rest) =
      right.positions key >>= fun rightKey =>
        (left.join right leftKey rightKey).joinAll leftKey rest := rfl

/-- What every join of tables keeps holds of the join of all of them. -/
theorem joinAll_induction {P : Table → Prop} {rest : List (Table × List String)} {result : Table}
    (hstep : ∀ (left right : Table) (rightKey : List Nat), right ∈ rest.map Prod.fst → P left →
      P (left.join right leftKey rightKey))
    (hleft : P left) (h : left.joinAll leftKey rest = .ok result) : P result := by
  induction rest generalizing left with
  | nil =>
    cases h
    exact hleft
  | cons p rest ih =>
    obtain ⟨right, key⟩ := p
    rw [joinAll_cons] at h
    obtain ⟨rightKey, -, h⟩ := bind_eq_ok.1 h
    exact ih (fun l r k hr => hstep l r k (by simp [hr]))
      (hstep left right rightKey (by simp) hleft) h

theorem rectangular_joinAll {rest : List (Table × List String)} {result : Table}
    (hleft : left.Rectangular) (hrest : ∀ p ∈ rest, p.1.Rectangular)
    (h : left.joinAll leftKey rest = .ok result) : result.Rectangular := by
  refine joinAll_induction (fun l r k hr hl => ?_) hleft h
  obtain ⟨p, hp, rfl⟩ := List.mem_map.1 hr
  exact hl.join (hrest p hp) _ _

theorem mem_columns_joinAll {rest : List (Table × List String)} {result : Table} {name : String}
    (h : left.joinAll leftKey rest = .ok result) : name ∈ result.columns ↔
      name ∈ left.columns ∨ ∃ p ∈ rest, name ∈ p.1.columns := by
  induction rest generalizing left with
  | nil =>
    cases h
    simp
  | cons p rest ih =>
    obtain ⟨right, key⟩ := p
    rw [joinAll_cons] at h
    obtain ⟨rightKey, -, h⟩ := bind_eq_ok.1 h
    rw [ih h, mem_columns_join]
    simp [or_assoc]

theorem joinTables_eq_ok {tables : List Table} {keys : List (List String)} {result : Table} :
    joinTables tables keys = .ok result ↔
      tables.length = keys.length ∧ unequalKeys? keys = none ∧ ∃ first key rest places,
        tables.zip keys = (first, key) :: rest ∧ first.positions key = .ok places ∧
          first.joinAll places rest = .ok result := by
  unfold joinTables
  by_cases hlength : tables.length = keys.length
  · cases hkeys : unequalKeys? keys with
    | some fault =>
      rw [if_neg (by simpa using hlength)]
      exact ⟨fun h => (nomatch h), fun h => (nomatch h.2.1)⟩
    | none =>
      rw [if_neg (by simpa using hlength)]
      cases hzip : tables.zip keys with
      | nil => exact ⟨fun h => (nomatch h), fun ⟨_, _, _, _, _, _, h, _⟩ => (nomatch h)⟩
      | cons p rest =>
        obtain ⟨first, key⟩ := p
        show (first.positions key >>= fun places => first.joinAll places rest) = .ok result ↔ _
        rw [bind_eq_ok]
        constructor
        · rintro ⟨places, hplaces, h⟩
          exact ⟨hlength, rfl, first, key, rest, places, rfl, hplaces, h⟩
        · rintro ⟨-, -, first', key', rest', places, hcons, hplaces, h⟩
          cases hcons
          exact ⟨places, hplaces, h⟩
  · rw [if_pos (by simpa using hlength)]
    exact ⟨fun h => (nomatch h), fun h => absurd h.1 hlength⟩

theorem mem_columns_joinTables {tables : List Table} {keys : List (List String)} {result : Table}
    {name : String} (h : joinTables tables keys = .ok result) :
    name ∈ result.columns ↔ ∃ t ∈ tables, name ∈ t.columns := by
  obtain ⟨hlength, -, first, key, rest, places, hzip, -, h⟩ := joinTables_eq_ok.1 h
  have htables : tables = first :: rest.map Prod.fst := by
    rw [← List.map_fst_zip (Nat.le_of_eq hlength), hzip]
    rfl
  rw [mem_columns_joinAll h, htables]
  simp only [List.mem_cons, exists_eq_or_imp, List.mem_map, exists_exists_and_eq_and]

theorem rectangular_joinTables {tables : List Table} {keys : List (List String)} {result : Table}
    (hall : ∀ t ∈ tables, t.Rectangular) (h : joinTables tables keys = .ok result) :
    result.Rectangular := by
  obtain ⟨-, -, first, key, rest, places, hzip, -, h⟩ := joinTables_eq_ok.1 h
  have hmem : ∀ p ∈ (first, key) :: rest, p.1.Rectangular := by
    rw [← hzip]
    exact fun p hp => hall p.1 (List.of_mem_zip hp).1
  exact rectangular_joinAll (hmem (first, key) (by simp)) (fun p hp => hmem p (by simp [hp])) h

/-- The table is the part in a shard of the first of the pair, by the key that is the second. -/
def InShard (count shard : Nat) (p : Table × List String) (t : Table) : Prop :=
  ∃ places, p.1.positions p.2 = .ok places ∧ t = p.1.shardOf places count shard

/-- Joining the parts of tables in a shard gives the part of their join in that shard. -/
theorem joinAll_shardOf {count shard : Nat} {tables parts : List Table} {keys : List (List String)}
    {result : Table} (hlength : tables.length = keys.length) (hleft : left.Rectangular)
    (hrest : ∀ t ∈ tables, t.Rectangular) (hplaces : ∀ i ∈ leftKey, i < left.columns.length)
    (hparts : List.Forall₂ (InShard count shard) (tables.zip keys) parts)
    (h : left.joinAll leftKey (tables.zip keys) = .ok result) :
    (left.shardOf leftKey count shard).joinAll leftKey (parts.zip keys) =
      .ok (result.shardOf leftKey count shard) := by
  induction tables generalizing left keys parts with
  | nil =>
    obtain rfl : keys = [] := List.length_eq_zero_iff.1 hlength.symm
    cases h
    rw [List.zip_nil_right]
    rfl
  | cons right tables ih =>
    cases keys with
    | nil => cases hlength
    | cons key keys =>
      rw [List.zip_cons_cons] at hparts h
      obtain ⟨part, others, ⟨places, hkey, rfl⟩, hothers, rfl⟩ :=
        List.forall₂_cons_left_iff.1 hparts
      rw [joinAll_cons, hkey, ok_bind] at h
      have hsame : (right.shardOf places count shard).positions key = .ok places := hkey
      rw [List.zip_cons_cons, joinAll_cons, hsame, ok_bind]
      have hrows : ∀ row ∈ left.rows, ∀ i ∈ leftKey, i < row.length := fun row hrow i hi => by
        rw [hleft.2 row hrow]
        exact hplaces i hi
      rw [join_shardOf count shard hrows]
      refine ih (by simpa using hlength) (hleft.join (hrest right (by simp)) _ _)
        (fun t ht => hrest t (by simp [ht])) (fun i hi => ?_) hothers h
      have := hplaces i hi
      simp only [Table.join, List.length_append]
      omega

/-! ## The join of all tables -/

/-- The columns of the first table come first. -/
theorem columns_joinAll {rest : List (Table × List String)} {result : Table}
    (h : left.joinAll leftKey rest = .ok result) : ∃ more, result.columns = left.columns ++ more := by
  refine joinAll_induction (P := fun t => ∃ more, t.columns = left.columns ++ more) ?_
    ⟨[], (List.append_nil _).symm⟩ h
  rintro l r rightKey - ⟨more, hmore⟩
  refine ⟨more ++ pick (keptPlaces l.columns r.columns leftKey rightKey) r.columns, ?_⟩
  rw [← List.append_assoc, ← hmore]
  rfl

theorem positions_append {columns more key : List String} {places : List Nat}
    (h : positions columns key = .ok places) : positions (columns ++ more) key = .ok places := by
  refine positions_eq_ok.2 ((positions_eq_ok.1 h).imp fun name i hi => ?_)
  unfold List.idxOf? at hi ⊢
  rw [List.findIdx?_append, hi, Option.some_or]

theorem positions_joinTables {tables : List Table} {key : List String} {keys : List (List String)}
    {result : Table} (h : joinTables tables (key :: keys) = .ok result) :
    ∃ first rest places, tables = first :: rest ∧ first.positions key = .ok places ∧
      result.positions key = .ok places ∧ first.joinAll places (rest.zip keys) = .ok result := by
  obtain ⟨hlength, -, first, key', rest, places, hzip, hplaces, h⟩ := joinTables_eq_ok.1 h
  cases tables with
  | nil => cases hlength
  | cons table tables =>
    rw [List.zip_cons_cons] at hzip
    cases hzip
    obtain ⟨more, hmore⟩ := columns_joinAll h
    refine ⟨_, tables, places, rfl, hplaces, ?_, h⟩
    unfold Table.positions at hplaces ⊢
    rw [hmore, positions_append (mapError_eq_ok.1 hplaces)]
    rfl

theorem joinTables_shardOf {count shard : Nat} {tables parts : List Table} {key : List String}
    {keys : List (List String)} {result : Table} {places : List Nat}
    (hall : ∀ t ∈ tables, t.Rectangular)
    (hparts : List.Forall₂ (InShard count shard) (tables.zip (key :: keys)) parts)
    (h : joinTables tables (key :: keys) = .ok result) (hplaces : result.positions key = .ok places) :
    joinTables parts (key :: keys) = .ok (result.shardOf places count shard) := by
  obtain ⟨hlength, hkeys, -⟩ := joinTables_eq_ok.1 h
  obtain ⟨first, rest, places', rfl, hfirst, hresult, h⟩ := positions_joinTables h
  cases hresult.symm.trans hplaces
  rw [List.zip_cons_cons] at hparts
  obtain ⟨part, others, ⟨places', hpart, rfl⟩, hothers, rfl⟩ := List.forall₂_cons_left_iff.1 hparts
  cases hfirst.symm.trans hpart
  have hlength : rest.length = keys.length := by simpa using hlength
  have hsame : others.length = keys.length := by
    rw [← hothers.length_eq, List.length_zip, hlength, Nat.min_self]
  refine joinTables_eq_ok.2 ⟨by simp [hsame], hkeys, _, _, _, places, List.zip_cons_cons, hfirst, ?_⟩
  exact joinAll_shardOf hlength (hall first (by simp)) (fun t ht => hall t (by simp [ht]))
    (positions_lt hfirst) hothers h

theorem joinAll_ok {rest : List (Table × List String)}
    (h : ∀ p ∈ rest, ∃ places, p.1.positions p.2 = .ok places) (left : Table) :
    ∃ result, left.joinAll leftKey rest = .ok result := by
  induction rest generalizing left with
  | nil => exact ⟨left, rfl⟩
  | cons p rest ih =>
    obtain ⟨places, hplaces⟩ := h p (by simp)
    obtain ⟨result, hresult⟩ := ih (fun q hq => h q (by simp [hq])) (left.join p.1 leftKey places)
    exact ⟨result, by rw [joinAll_cons, hplaces, ok_bind, hresult]⟩

theorem joinTables_ok {tables : List Table} {keys : List (List String)}
    (hlength : tables.length = keys.length) (hkeys : unequalKeys? keys = none) (hne : tables ≠ [])
    (h : ∀ p ∈ tables.zip keys, ∃ places, p.1.positions p.2 = .ok places) :
    ∃ result, joinTables tables keys = .ok result := by
  cases hzip : tables.zip keys with
  | nil =>
    rw [List.zip_eq_nil_iff, ← List.length_eq_zero_iff, ← List.length_eq_zero_iff] at hzip
    exact absurd (List.length_eq_zero_iff.1 (by omega)) hne
  | cons p rest =>
    rw [hzip] at h
    obtain ⟨places, hplaces⟩ := h p (by simp)
    obtain ⟨result, hresult⟩ := joinAll_ok (fun q hq => h q (List.mem_cons_of_mem p hq)) p.1
    exact ⟨result, joinTables_eq_ok.2 ⟨hlength, hkeys, _, _, rest, places, hzip, hplaces, hresult⟩⟩

/-! ## One row of each table -/

/-- A table with a single row. -/
def Table.only (t : Table) (row : Row) : Table := { t with rows := [row] }

/-- The row is one of the first of the pair, and has the key by the columns that are the second. -/
def HasKey (key : Key) (p : Table × List String) (row : Row) : Prop :=
  row ∈ p.1.rows ∧ ∃ places, p.1.positions p.2 = .ok places ∧ Key.ofRow row places = key

theorem join_only {row other : Row} (hjoin : (Key.ofRow row leftKey).isJoinable = true)
    (hkey : Key.ofRow other rightKey = Key.ofRow row leftKey) :
    (left.only row).join (right.only other) leftKey rightKey =
      (left.join right leftKey rightKey).only
        (row ++ pick (keptPlaces left.columns right.columns leftKey rightKey) other) := by
  have hrows : ((left.only row).join (right.only other) leftKey rightKey).rows =
      [row ++ pick (keptPlaces left.columns right.columns leftKey rightKey) other] := by
    rw [rows_join]
    simp [Table.only, hjoin, hkey]
  unfold Table.only at hrows ⊢
  rw [← hrows]
  rfl

/-- Rows with one key, no value of which is missing, are joined to a row of the join of all
tables. -/
theorem joinAll_only {tables : List Table} {keys : List (List String)} {rows : List Row}
    {row : Row} {key : Key} {result : Table} (hlength : tables.length = keys.length)
    (hrow : row ∈ left.rows) (hkey : Key.ofRow row leftKey = key) (hjoin : key.isJoinable = true)
    (hplaces : ∀ i ∈ leftKey, i < row.length)
    (hrows : List.Forall₂ (HasKey key) (tables.zip keys) rows)
    (h : left.joinAll leftKey (tables.zip keys) = .ok result) :
    ∃ r ∈ result.rows, (left.only row).joinAll leftKey
      ((List.zipWith Table.only tables rows).zip keys) = .ok (result.only r) := by
  induction tables generalizing left keys rows row with
  | nil =>
    cases h
    exact ⟨row, hrow, rfl⟩
  | cons right tables ih =>
    cases keys with
    | nil => cases hlength
    | cons name keys =>
      rw [List.zip_cons_cons] at hrows h
      obtain ⟨other, others, ⟨hother, rightKey, hpositions, hsame⟩, hrest, rfl⟩ :=
        List.forall₂_cons_left_iff.1 hrows
      rw [joinAll_cons, hpositions, ok_bind] at h
      have honly : (right.only other).positions name = .ok rightKey := hpositions
      subst hkey
      rw [List.zipWith_cons_cons, List.zip_cons_cons, joinAll_cons, honly, ok_bind,
        join_only hjoin hsame]
      refine ih (by simpa using hlength)
        (mem_rows_join.2 ⟨row, hrow, other, hother, hjoin, hsame, rfl⟩) (ofRow_append hplaces)
        (fun i hi => ?_) hrest h
      have := hplaces i hi
      rw [List.length_append]
      omega

/-- A row of the join of all tables comes from rows with one key. -/
theorem keys_of_joinAll {rest : List (Table × List String)} {result : Table} {r : Row}
    (hplaces : ∀ row ∈ left.rows, ∀ i ∈ leftKey, i < row.length)
    (h : left.joinAll leftKey rest = .ok result) (hr : r ∈ result.rows) :
    ∃ row ∈ left.rows, ∀ p ∈ rest, (Key.ofRow row leftKey).isJoinable = true ∧
      ∃ other, HasKey (Key.ofRow row leftKey) p other := by
  induction rest generalizing left with
  | nil =>
    cases h
    exact ⟨r, hr, fun p hp => nomatch hp⟩
  | cons p rest ih =>
    obtain ⟨right, name⟩ := p
    rw [joinAll_cons] at h
    obtain ⟨rightKey, hpositions, h⟩ := bind_eq_ok.1 h
    have hwider : ∀ row ∈ (left.join right leftKey rightKey).rows, ∀ i ∈ leftKey,
        i < row.length := by
      intro glued hglued i hi
      obtain ⟨row, hrow, other, -, -, -, rfl⟩ := mem_rows_join.1 hglued
      have := hplaces row hrow i hi
      rw [List.length_append]
      omega
    obtain ⟨glued, hglued, hall⟩ := ih hwider h
    obtain ⟨row, hrow, other, hother, hjoin, hsame, rfl⟩ := mem_rows_join.1 hglued
    rw [ofRow_append (hplaces row hrow)] at hall
    refine ⟨row, hrow, fun p hp => ?_⟩
    rcases List.mem_cons.1 hp with rfl | hp
    · exact ⟨hjoin, other, hother, rightKey, hpositions, hsame⟩
    · exact hall p hp

/-- Rows with one key, no value of which is missing, are joined to a row of the join of all
tables. -/
theorem joinTables_only {tables : List Table} {keys : List (List String)} {rows : List Row}
    {key : Key} {result : Table} (hall : ∀ t ∈ tables, t.Rectangular)
    (hjoin : key.isJoinable = true) (hrows : List.Forall₂ (HasKey key) (tables.zip keys) rows)
    (h : joinTables tables keys = .ok result) :
    ∃ r ∈ result.rows,
      joinTables (List.zipWith Table.only tables rows) keys = .ok (result.only r) := by
  obtain ⟨hlength, hkeys, first, name, rest, places, hzip, hpositions, h⟩ := joinTables_eq_ok.1 h
  cases tables with
  | nil => cases hzip
  | cons left tables =>
    cases keys with
    | nil => cases hlength
    | cons name keys =>
      rw [List.zip_cons_cons] at hzip hrows
      cases hzip
      obtain ⟨row, others, ⟨hrow, places', hpositions', hkey⟩, hothers, rfl⟩ :=
        List.forall₂_cons_left_iff.1 hrows
      cases hpositions.symm.trans hpositions'
      have hwidth : ∀ i ∈ places, i < row.length := fun i hi => by
        rw [(hall first (by simp)).2 row hrow]
        exact positions_lt hpositions i hi
      have hlength' : tables.length = keys.length := by simpa using hlength
      have hothers' : others.length = keys.length := by
        rw [← hothers.length_eq, List.length_zip, hlength', Nat.min_self]
      obtain ⟨r, hr, hone⟩ := joinAll_only hlength' hrow hkey hjoin hwidth hothers h
      refine ⟨r, hr, joinTables_eq_ok.2 ⟨?_, hkeys, _, _, _, places, List.zip_cons_cons, hpositions,
        hone⟩⟩
      simp [List.length_zipWith, hlength', hothers']

/-- A row of the join of several tables comes from rows with one key, no value of which is
missing. -/
theorem keys_of_joinTables {tables : List Table} {keys : List (List String)} {result : Table}
    {r : Row} (hall : ∀ t ∈ tables, t.Rectangular) (hseveral : 1 < tables.length)
    (h : joinTables tables keys = .ok result) (hr : r ∈ result.rows) :
    ∃ key : Key, key.isJoinable = true ∧ ∀ p ∈ tables.zip keys, ∃ row, HasKey key p row := by
  obtain ⟨hlength, hkeys, first, name, rest, places, hzip, hpositions, h⟩ := joinTables_eq_ok.1 h
  have hlong := congrArg List.length hzip
  rw [List.length_zip, ← hlength, Nat.min_self, List.length_cons] at hlong
  have hmem : first ∈ tables := (List.of_mem_zip (hzip ▸ List.mem_cons_self)).1
  obtain ⟨row, hrow, hrest⟩ := keys_of_joinAll (fun row hrow i hi => by
    rw [(hall first hmem).2 row hrow]
    exact positions_lt hpositions i hi) h hr
  obtain ⟨p, hp⟩ := List.exists_mem_of_length_pos (by omega : 0 < rest.length)
  refine ⟨_, (hrest p hp).1, fun q hq => ?_⟩
  rw [hzip] at hq
  rcases List.mem_cons.1 hq with rfl | hq
  · exact ⟨row, hrow, places, hpositions, rfl⟩
  · exact (hrest q hq).2

end Equijoin
