import Equijoin.Proofs.Tables.Checks
import Equijoin.Proofs.Tables.Matching

/-! # The columns of a join

A join has the columns of its first table and, of every other one, those that this does not share as
key columns with the first.

* `mem_keptPlaces`: the places of the right columns that are kept.
* `Adds`: what a table adds to the columns of a join.
* `adds_pick`: what is kept of a table that has no column twice.
* `columns_joinTables`: the columns of a join of tables.
-/

set_option autoImplicit false

namespace Equijoin

/-! ## Two tables -/

section Kept

variable {left right key key₀ : List String} {leftKey rightKey : List Nat} {name : String}

theorem mem_keptPlaces {j : Nat} : j ∈ keptPlaces left right leftKey rightKey ↔
    j < right.length ∧
      ¬ ∃ p l : Nat, rightKey[p]? = some j ∧ leftKey[p]? = some l ∧ right[j]? = left[l]? := by
  unfold keptPlaces
  rw [List.mem_filter, List.mem_range, Bool.not_eq_true', Bool.eq_false_iff]
  apply and_congr_right
  intro _
  apply not_congr
  simp only [List.any_eq_true, Bool.and_eq_true, beq_iff_eq]
  constructor
  · rintro ⟨⟨r, l⟩, hmem, hr, hsame⟩
    obtain ⟨p, hp⟩ := List.mem_iff_getElem?.1 hmem
    obtain ⟨hright, hleft⟩ := List.getElem?_zip_eq_some.1 hp
    subst hr
    exact ⟨p, l, hright, hleft, hsame⟩
  · rintro ⟨p, l, hright, hleft, hsame⟩
    exact ⟨(j, l), List.mem_of_getElem? (List.getElem?_zip_eq_some.2 ⟨hright, hleft⟩), rfl, hsame⟩

theorem getElem?_of_idxOf? {columns : List String} {i : Nat} (h : columns.idxOf? name = some i) :
    columns[i]? = some name := by
  obtain ⟨hlt, hname, -⟩ := List.findIdx?_eq_some_iff_getElem.1 h
  rw [List.getElem?_eq_getElem hlt, beq_iff_eq.1 hname]

theorem pick_range {α : Type} (xs : List α) : pick (List.range xs.length) xs = xs := by
  unfold pick
  induction xs with
  | nil => rfl
  | cons x xs ih =>
    rw [List.length_cons, List.range_succ_eq_map, List.filterMap_cons, List.filterMap_map]
    exact congrArg (x :: ·) ih

theorem pick_sublist {α : Type} (keep : Nat → Bool) (xs : List α) :
    (pick ((List.range xs.length).filter keep) xs).Sublist xs := by
  conv_rhs => rw [← pick_range xs]
  unfold pick
  exact List.filter_sublist.filterMap _

/-- What a table adds to the columns of a join: those that it does not share. -/
structure Adds (key₀ key columns added : List String) : Prop where
  nodup : added.Nodup
  mem : ∀ name, name ∈ added ↔ name ∈ columns ∧ ¬ Shares key₀ key name

/-- What is kept of a table that has no column twice. -/
theorem adds_pick (hright : right.Nodup) (hkey : positions right key = .ok rightKey)
    (hkey₀ : positions left key₀ = .ok leftKey) :
    Adds key₀ key right (pick (keptPlaces left right leftKey rightKey) right) := by
  have hplaces := positions_eq_ok.1 hkey
  have hplaces₀ := positions_eq_ok.1 hkey₀
  refine ⟨(pick_sublist _ _).nodup hright, ?_⟩
  intro name
  unfold pick
  rw [List.mem_filterMap]
  constructor
  · rintro ⟨j, hkept, hj⟩
    refine ⟨List.mem_of_getElem? hj, ?_⟩
    rintro ⟨p, hp, hp₀⟩
    obtain ⟨r, hr, hfound⟩ := getElem?_of_forall₂ hplaces hp
    obtain ⟨l, hl, hfound₀⟩ := getElem?_of_forall₂ hplaces₀ hp₀
    have hat := getElem?_of_idxOf? hfound
    -- as no name is there twice, the column that is kept would be the shared one
    obtain rfl : r = j := by
      apply (List.getElem?_inj (List.getElem?_eq_some_iff.1 hat).1 hright).1
      rw [hat, hj]
    exact (mem_keptPlaces.1 hkept).2 ⟨p, l, hr, hl, by rw [hat, getElem?_of_idxOf? hfound₀]⟩
  · rintro ⟨hname, hown⟩
    obtain ⟨j, hj⟩ := List.mem_iff_getElem?.1 hname
    refine ⟨j, mem_keptPlaces.2 ⟨(List.getElem?_eq_some_iff.1 hj).1, ?_⟩, hj⟩
    rintro ⟨p, l, hr, hl, hsame⟩
    obtain ⟨k, hk, hfound⟩ := getElem?_of_forall₂ hplaces.flip hr
    obtain ⟨k₀, hk₀, hfound₀⟩ := getElem?_of_forall₂ hplaces₀.flip hl
    rw [hj, getElem?_of_idxOf? hfound₀] at hsame
    cases hsame
    have hat := getElem?_of_idxOf? hfound
    rw [hj] at hat
    cases hat
    exact hown ⟨p, hk, hk₀⟩

end Kept

/-! ## All tables -/

theorem columns_joinAll_adds {left result : Table} {leftKey : List Nat} {key₀ : List String}
    {rest : List (Table × List String)} (hkey₀ : positions left.columns key₀ = .ok leftKey)
    (hrest : ∀ p ∈ rest, p.1.columns.Nodup) (h : left.joinAll leftKey rest = .ok result) :
    ∃ added, result.columns = left.columns ++ added.flatten ∧
      List.Forall₂ (fun p columns => Adds key₀ p.2 p.1.columns columns) rest added := by
  induction rest generalizing left with
  | nil =>
    cases h
    exact ⟨[], by simp, .nil⟩
  | cons p rest ih =>
    obtain ⟨right, key⟩ := p
    rw [joinAll_cons] at h
    obtain ⟨rightKey, hkey, h⟩ := bind_eq_ok.1 h
    have hone := adds_pick (hrest (right, key) List.mem_cons_self) (mapError_eq_ok.1 hkey) hkey₀
    -- columns are added at the end, so the key columns of the first table stay in their places
    obtain ⟨added, hcolumns, hadded⟩ := ih (positions_append hkey₀)
      (fun p hp => hrest p (List.mem_cons_of_mem _ hp)) h
    refine ⟨_, ?_, .cons hone hadded⟩
    rw [hcolumns, List.flatten_cons, ← List.append_assoc]
    rfl

/-- The columns of a join of tables that have no column twice. -/
theorem columns_joinTables {tables : List Table} {key₀ : List String} {keys : List (List String)}
    {result : Table} (hall : ∀ t ∈ tables, t.columns.Nodup)
    (h : joinTables tables (key₀ :: keys) = .ok result) :
    ∃ first rest added, tables = first :: rest ∧
      result.columns = first.columns ++ added.flatten ∧
      List.Forall₂ (fun p columns => Adds key₀ p.2 p.1.columns columns) (rest.zip keys) added := by
  obtain ⟨first, rest, places, rfl, hplaces, -, h⟩ := positions_joinTables h
  obtain ⟨added, hcolumns, hadded⟩ := columns_joinAll_adds (mapError_eq_ok.1 hplaces)
    (fun p hp => hall p.1 (List.mem_cons_of_mem _ (List.of_mem_zip hp).1)) h
  exact ⟨first, rest, added, rfl, hcolumns, hadded⟩

end Equijoin
