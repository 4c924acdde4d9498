import Equijoin.Proofs.Tables.Soundness

/-! # Lookups that never miss

Lookups in lists are total: one that misses has a default, or its element is left out. Here they are
strict: one that misses ends in a fault that nothing else ends in.

* `Strict.lookup`: a lookup that fails if it misses.
* `Strict.join`: the join of two tables with strict lookups, of rows as well as of cells.
* `Strict.join_eq`: the lookups of a join hit, if the places of the keys are columns and the right
  table is rectangular.
* `Strict.keyColumns_eq`: so do those of the key columns of a file.
-/

set_option autoImplicit false

namespace Equijoin

theorem mapM_eq_map {ε α β : Type} {f : α → Except ε β} {g : α → β} {xs : List α}
    (h : ∀ x ∈ xs, f x = .ok (g x)) : xs.mapM f = .ok (xs.map g) :=
  mapM_eq_ok.2 (List.forall₂_map_right_iff.2 (List.forall₂_same.2 h))

namespace Strict

variable (miss : Fault)

/-- The element at a place, which must be one of the list. -/
def lookup {α : Type} (xs : List α) (i : Nat) : Outcome α :=
  match xs[i]? with
  | some a => .ok a
  | none => .error miss

theorem lookup_eq {α : Type} {xs : List α} {i : Nat} {a : α} (h : xs[i]? = some a) :
    lookup miss xs i = .ok a := by
  unfold lookup
  rw [h]

/-- If all places are in the list, as many elements are picked. -/
theorem mapM_lookup {α : Type} {places : List Nat} {xs : List α}
    (h : ∀ i ∈ places, i < xs.length) : places.mapM (lookup miss xs) = .ok (pick places xs) := by
  refine mapM_eq_ok.2 ?_
  induction places with
  | nil => exact .nil
  | cons i places ih =>
    have hlt : i < xs.length := h i List.mem_cons_self
    have hi : xs[i]? = some xs[i] := List.getElem?_eq_getElem hlt
    have hpick : pick (i :: places) xs = xs[i] :: pick places xs := by
      unfold pick
      rw [List.filterMap_cons, hi]
    rw [hpick]
    exact .cons (lookup_eq miss hi) (ih fun j hj => h j (List.mem_cons_of_mem _ hj))

/-! ## Joining two tables -/

/-- Some key column of the right table is the one at the place, and has the name of its left
counterpart. Names are looked up for this column only. -/
def repeats (left right : List String) (j : Nat) : List (Nat × Nat) → Outcome Bool
  | [] => .ok false
  | (r, l) :: rest =>
    if r = j then do
      if (← lookup miss right r) = (← lookup miss left l) then .ok true
      else repeats left right j rest
    else repeats left right j rest

def keptAmong (left right : List String) (leftKey rightKey : List Nat) :
    List Nat → Outcome (List Nat)
  | [] => .ok []
  | j :: rest => do
    let repeated ← repeats miss left right j (rightKey.zip leftKey)
    let kept ← keptAmong left right leftKey rightKey rest
    .ok (if repeated then kept else j :: kept)

/-- The places of the right columns that a join keeps. -/
def keptPlaces (left right : List String) (leftKey rightKey : List Nat) : Outcome (List Nat) :=
  keptAmong miss left right leftKey rightKey (List.range right.length)

/-- The places of the rows that a key finds. -/
def rowPlaces (places : List Nat) (rows : List Row) (key : Key) : List Nat :=
  (rows.zipIdx.filter fun p => key.isJoinable && Key.ofRow p.1 places = key).map Prod.snd

/-- The join of two tables, by the places of their rows. -/
def join (left right : Table) (leftKey rightKey : List Nat) : Outcome Table := do
  let kept ← keptPlaces miss left.columns right.columns leftKey rightKey
  let rows ← left.rows.mapM fun row =>
    (rowPlaces rightKey right.rows (Key.ofRow row leftKey)).mapM fun m => do
      let cells ← kept.mapM fun j => do lookup miss (← lookup miss right.rows m) j
      .ok (row ++ cells)
  let columns ← kept.mapM (lookup miss right.columns)
  let types ← kept.mapM (lookup miss right.types)
  .ok ⟨left.columns ++ columns, left.types ++ types, rows.flatten⟩

section Join

variable {left right : Table} {leftKey rightKey : List Nat}

theorem repeats_eq {ls rs : List String} {j : Nat} (hj : j < rs.length)
    {pairs : List (Nat × Nat)} (h : ∀ p ∈ pairs, p.2 < ls.length) :
    repeats miss ls rs j pairs = .ok (pairs.any fun p => p.1 == j && rs[p.1]? == ls[p.2]?) := by
  induction pairs with
  | nil => rfl
  | cons p pairs ih =>
    obtain ⟨r, l⟩ := p
    have hrest := ih fun p hp => h p (List.mem_cons_of_mem _ hp)
    rw [repeats, hrest, List.any_cons]
    by_cases hr : r = j
    · subst hr
      have hlt : l < ls.length := h (r, l) List.mem_cons_self
      have hl : ls[l]? = some ls[l] := List.getElem?_eq_getElem hlt
      have hr : rs[r]? = some rs[r] := List.getElem?_eq_getElem hj
      rw [if_pos rfl, lookup_eq miss hr, lookup_eq miss hl, ok_bind, ok_bind, hr, hl]
      by_cases hname : rs[r] = ls[l]
      · simp [hname]
      · simp [hname]
    · simp [hr]

theorem keptPlaces_eq {ls rs : List String} (h : ∀ l ∈ leftKey, l < ls.length) :
    keptPlaces miss ls rs leftKey rightKey = .ok (Equijoin.keptPlaces ls rs leftKey rightKey) := by
  have hall : ∀ js : List Nat, (∀ j ∈ js, j < rs.length) →
      keptAmong miss ls rs leftKey rightKey js = .ok (js.filter fun j =>
        !(rightKey.zip leftKey).any fun p => p.1 == j && rs[p.1]? == ls[p.2]?) := by
    intro js hjs
    induction js with
    | nil => rfl
    | cons j js ih =>
      rw [keptAmong, repeats_eq miss (hjs j List.mem_cons_self) fun p hp =>
        h p.2 (List.of_mem_zip hp).2, ok_bind, ih fun k hk => hjs k (List.mem_cons_of_mem _ hk),
        ok_bind, List.filter_cons]
      cases (rightKey.zip leftKey).any fun p => p.1 == j && rs[p.1]? == ls[p.2]? <;> rfl
  exact hall _ fun j hj => List.mem_range.1 hj

/-- At the places that a key finds are the rows that it finds. -/
theorem forall₂_rowPlaces (places : List Nat) (rows : List Row) (key : Key) :
    List.Forall₂ (fun m row => rows[m]? = some row) (rowPlaces places rows key)
      ((Matches.ofRows places rows).getD key []) := by
  have hrows : (Matches.ofRows places rows).getD key [] =
      (rows.zipIdx.filter fun p => key.isJoinable && Key.ofRow p.1 places = key).map Prod.fst := by
    rw [matches_getD]
    cases hkey : key.isJoinable with
    | false => simp
    | true =>
      conv => lhs; rw [← List.zipIdx_map_fst 0 rows]
      rw [if_pos rfl, List.filter_map]
      rfl
  rw [hrows, rowPlaces, List.forall₂_map_left_iff, List.forall₂_map_right_iff, List.forall₂_same]
  exact fun p hp => List.mk_mem_zipIdx_iff_getElem?.1 (List.mem_filter.1 hp).1

/-- The joined rows of a left row, by the places of the right rows. -/
theorem mapM_rowPlaces (hright : right.Rectangular) {kept : List Nat}
    (hkept : ∀ j ∈ kept, j < right.columns.length) (row : Row) (key : Key) :
    ((rowPlaces rightKey right.rows key).mapM fun m => do
      let cells ← kept.mapM fun j => do lookup miss (← lookup miss right.rows m) j
      .ok (row ++ cells)) =
        .ok (((Matches.ofRows rightKey right.rows).getD key []).map fun other =>
          row ++ pick kept other) := by
  refine mapM_eq_ok.2 (List.forall₂_map_right_iff.2 ?_)
  refine (forall₂_rowPlaces rightKey right.rows key).imp fun m other hother => ?_
  have hcells : (kept.mapM fun j => do lookup miss (← lookup miss right.rows m) j) =
      .ok (pick kept other) := by
    rw [lookup_eq miss hother]
    refine mapM_lookup miss fun j hj => ?_
    rw [hright.2 other (List.mem_of_getElem? hother)]
    exact hkept j hj
  rw [hcells, ok_bind]

/-- All lookups of a join hit. -/
theorem join_eq (hright : right.Rectangular) (hkey : ∀ l ∈ leftKey, l < left.columns.length) :
    join miss left right leftKey rightKey = .ok (left.join right leftKey rightKey) := by
  have hkept : ∀ j ∈ Equijoin.keptPlaces left.columns right.columns leftKey rightKey,
      j < right.columns.length := fun j hj => lt_of_mem_keptPlaces hj
  have htypes : ∀ j ∈ Equijoin.keptPlaces left.columns right.columns leftKey rightKey,
      j < right.types.length := fun j hj => by
    rw [hright.1]
    exact hkept j hj
  unfold join
  rw [keptPlaces_eq miss hkey, ok_bind, mapM_eq_map fun row _ =>
    mapM_rowPlaces miss hright hkept row (Key.ofRow row leftKey), ok_bind, mapM_lookup miss hkept,
    ok_bind, mapM_lookup miss htypes, ok_bind, ← List.flatMap_def]
  rfl

end Join

/-! ## Key columns -/

/-- The key columns of a file. -/
def keyColumns (header : List String) (types : List ColumnType) (places : List Nat) :
    Outcome (List KeyColumn) :=
  places.mapM fun i => do
    let type ← lookup miss types i
    let name ← lookup miss header i
    .ok ⟨i, name, type.storage⟩

theorem keyColumns_eq {header : List String} {types : List ColumnType} {places : List Nat}
    (htypes : types.length = header.length) (h : ∀ i ∈ places, i < header.length) :
    keyColumns miss header types places = .ok (Equijoin.keyColumns header types places) := by
  refine mapM_eq_map fun i hi => ?_
  have hlt : i < header.length := h i hi
  have hlt' : i < types.length := htypes ▸ hlt
  have hname : header[i]? = some header[i] := List.getElem?_eq_getElem hlt
  have htype : types[i]? = some types[i] := List.getElem?_eq_getElem hlt'
  rw [lookup_eq miss htype, lookup_eq miss hname, htype, hname]
  rfl

end Strict

end Equijoin
