import Equijoin.Proofs.Tables.Merging

/-! # Declarations with another type

A schema keeps names and types apart. Another type for a name changes one entry of one list of
types, which is the first declaration of the name, and promotion changes one entry for every name.

* `retypeFirst`: the declarations with another type in the first one of a name.
* `Schema.declarations_setType`: what another type for a name does to the declarations.
* `Schema.getElem?_promote`: which declarations promotion changes.
* `Schema.lookup_promote_eq`: what is found after promotion, with its group.
-/

set_option autoImplicit false

namespace Equijoin

variable {name : String} {type : ColumnType} {ds : List Declaration}

/-- The column as a column of floats. -/
def Declaration.asFloat (d : Declaration) : Declaration :=
  { d with type := .float64 }

/-- The declarations with another type in the first one of a name. -/
def retypeFirst (name : String) (type : ColumnType) : List Declaration → List Declaration
  | [] => []
  | d :: rest =>
    if d.name = name then { d with type := type } :: rest else d :: retypeFirst name type rest

theorem retypeFirst_eq_self (h : name ∉ ds.map Declaration.name) :
    retypeFirst name type ds = ds := by
  induction ds with
  | nil => rfl
  | cons d ds ih =>
    rw [List.map_cons, List.mem_cons, not_or] at h
    rw [retypeFirst, if_neg (Ne.symm h.1), ih h.2]

theorem retypeFirst_append_left (h : name ∈ ds.map Declaration.name) (rest : List Declaration) :
    retypeFirst name type (ds ++ rest) = retypeFirst name type ds ++ rest := by
  induction ds with
  | nil => cases h
  | cons d ds ih =>
    rw [List.cons_append, retypeFirst, retypeFirst]
    split
    · rfl
    · rename_i hd
      rw [List.map_cons, List.mem_cons] at h
      rw [ih (h.resolve_left (Ne.symm hd)), List.cons_append]

theorem retypeFirst_append_right (h : name ∉ ds.map Declaration.name) (rest : List Declaration) :
    retypeFirst name type (ds ++ rest) = ds ++ retypeFirst name type rest := by
  induction ds with
  | nil => rfl
  | cons d ds ih =>
    rw [List.map_cons, List.mem_cons, not_or] at h
    rw [List.cons_append, retypeFirst, if_neg (Ne.symm h.1), ih h.2, List.cons_append]

/-- Only the first declaration of the name is another one. -/
theorem getElem?_retypeFirst (name : String) (type : ColumnType) (ds : List Declaration) (i : Nat) :
    (retypeFirst name type ds)[i]? = (ds[i]?).map fun d =>
      if d.name = name ∧ d.name ∉ (ds.map Declaration.name).take i then { d with type := type }
      else d := by
  induction ds generalizing i with
  | nil => rfl
  | cons d ds ih =>
    rw [retypeFirst]
    split
    · rename_i hd
      cases i with
      | zero => simp [hd]
      | succ i =>
        -- a later declaration of the name is not the first
        rw [List.getElem?_cons_succ, List.getElem?_cons_succ]
        cases hi : ds[i]? with
        | none => rfl
        | some e =>
          have hlater : ¬ (e.name = name ∧
              e.name ∉ ((d :: ds).map Declaration.name).take (i + 1)) := by
            rintro ⟨he, hfirst⟩
            exact hfirst (by simp [he, hd])
          rw [Option.map_some, if_neg hlater]
    · rename_i hd
      cases i with
      | zero => simp [hd]
      | succ i =>
        rw [List.getElem?_cons_succ, List.getElem?_cons_succ, ih]
        refine Option.map_congr fun e _ => ?_
        by_cases he : e.name = name
        · simp [he, Ne.symm hd]
        · simp [he]

theorem find?_retypeFirst (name : String) (type : ColumnType) (ds : List Declaration)
    (other : String) : (retypeFirst name type ds).find? (·.name == other) =
      (ds.find? (·.name == other)).map fun d =>
        if other = name then { d with type := type } else d := by
  induction ds with
  | nil => rfl
  | cons d ds ih =>
    rw [retypeFirst]
    by_cases hother : d.name = other
    · by_cases hd : d.name = name
      · simp [hd, ← hother]
      · have hne : other ≠ name := fun h => hd (hother.trans h)
        simp [hother, hne]
    · by_cases hd : d.name = name
      · have hne : other ≠ name := fun h => hother (hd.trans h.symm)
        have hne' : (name == other) = false := by simpa using Ne.symm hne
        cases hfound : ds.find? (·.name == other) <;> simp [hd, hne, hne', hfound]
      · have hne : (d.name == other) = false := by simpa using hother
        simp [hd, hne, ih]

namespace Schema

variable {s : Schema} {ns : List String}

/-! ## One name -/

theorem declare_set {group : ColumnGroup} {types : List ColumnType} {i : Nat}
    (hlength : ns.length = types.length) (h : ns.idxOf? name = some i) (type : ColumnType) :
    declare group ns (types.set i type) = retypeFirst name type (declare group ns types) := by
  induction ns generalizing types i with
  | nil => cases h
  | cons n ns ih =>
    obtain ⟨first, rest, rfl⟩ := List.exists_cons_of_length_eq_add_one hlength.symm
    have hcons : ∀ (first : ColumnType) (rest : List ColumnType),
        declare group (n :: ns) (first :: rest) = ⟨n, first, group⟩ :: declare group ns rest :=
      fun _ _ => rfl
    rw [List.idxOf?_cons] at h
    by_cases hn : n = name
    · rw [if_pos (by simpa using hn), Option.some.injEq] at h
      rw [← h, List.set_cons_zero, hcons, hcons, retypeFirst, if_pos hn]
    · rw [if_neg (by simpa using hn)] at h
      obtain ⟨j, hj, rfl⟩ := Option.map_eq_some_iff.1 h
      have hrest : ns.length = rest.length := by simpa using hlength
      rw [List.set_cons_succ, hcons, hcons, retypeFirst, if_neg hn, ih hrest hj]

theorem mem_declare_iff {group : ColumnGroup} {types : List ColumnType}
    (hlength : ns.length = types.length) :
    name ∈ (declare group ns types).map Declaration.name ↔ name ∈ ns := by
  rw [names_declare, ← hlength, List.take_length]

/-- Another type for a name changes the first declaration of the name. -/
theorem declarations_setType (h : s.Even) (name : String) (type : ColumnType) :
    (s.setType name type).declarations = retypeFirst name type s.declarations := by
  have hnot : ∀ {ns : List String} {types : List ColumnType} {group : ColumnGroup},
      ns.length = types.length → ns.idxOf? name = none →
        name ∉ (declare group ns types).map Declaration.name := fun hlength hnone hmem =>
    List.idxOf?_eq_none_iff.1 hnone ((mem_declare_iff hlength).1 hmem)
  have hmem : ∀ {ns : List String} {types : List ColumnType} {group : ColumnGroup} {i : Nat},
      ns.length = types.length → ns.idxOf? name = some i →
        name ∈ (declare group ns types).map Declaration.name := fun hlength hsome =>
    (mem_declare_iff hlength).2 <| by
      by_contra hne
      rw [List.idxOf?_eq_none_iff.2 hne] at hsome
      cases hsome
  unfold setType setType? declarations
  rw [List.append_assoc, List.append_assoc]
  cases hids : s.ids.idxOf? name with
  | some i =>
    simp only [replaceType?_of_lt (h.ids ▸ idxOf?_lt hids), Option.map_some, Option.getD_some]
    rw [retypeFirst_append_left (hmem h.ids hids), declare_set h.ids hids]
  | none =>
    rw [retypeFirst_append_right (hnot h.ids hids)]
    cases hfeatures : s.features.idxOf? name with
    | some i =>
      simp only [replaceType?_of_lt (h.features ▸ idxOf?_lt hfeatures), Option.map_some,
        Option.getD_some]
      rw [retypeFirst_append_left (hmem h.features hfeatures), declare_set h.features hfeatures]
    | none =>
      rw [retypeFirst_append_right (hnot h.features hfeatures)]
      cases hlabels : s.labels.idxOf? name with
      | some i =>
        simp only [replaceType?_of_lt (h.labels ▸ idxOf?_lt hlabels), Option.map_some,
          Option.getD_some]
        rw [declare_set h.labels hlabels]
      | none =>
        rw [retypeFirst_eq_self (hnot h.labels hlabels)]
        rfl

/-! ## Promotion -/

theorem promote_lists (s : Schema) (ns : List String) : (s.promote ns).ids = s.ids ∧
    (s.promote ns).features = s.features ∧ (s.promote ns).labels = s.labels := by
  unfold promote
  induction ns generalizing s with
  | nil => exact ⟨rfl, rfl, rfl⟩
  | cons n ns ih =>
    obtain ⟨hids, hfeatures, hlabels, -⟩ := setType_shape s n .float64
    obtain ⟨hids', hfeatures', hlabels'⟩ := ih (s.setType n .float64)
    exact ⟨hids'.trans hids, hfeatures'.trans hfeatures, hlabels'.trans hlabels⟩

/-- Promotion changes the first declaration of each name, and no other. -/
theorem getElem?_promote (h : s.Even) (ns : List String) (i : Nat) :
    (s.promote ns).declarations[i]? = (s.declarations[i]?).map fun d =>
      if d.name ∈ ns ∧ d.name ∉ s.names.take i then d.asFloat else d := by
  unfold promote
  induction ns generalizing s with
  | nil => simp
  | cons n ns ih =>
    rw [List.foldl_cons, ih (h.setType n .float64), names_setType, declarations_setType h,
      getElem?_retypeFirst, Option.map_map]
    refine Option.map_congr fun d _ => ?_
    rw [← names]
    by_cases hn : d.name = n
    · by_cases hfirst : n ∈ s.names.take i
      · simp [hn, hfirst]
      · by_cases hns : n ∈ ns
        · simp [hn, hfirst, hns, Declaration.asFloat]
        · simp [hn, hfirst, hns, Declaration.asFloat]
    · simp [hn]

theorem lookup_promote_eq (h : s.Even) (ns : List String) (name : String) :
    (s.promote ns).lookup name =
      (s.lookup name).map fun d => if name ∈ ns then d.asFloat else d := by
  unfold promote
  induction ns generalizing s with
  | nil => simp
  | cons n ns ih =>
    rw [List.foldl_cons, ih (h.setType n .float64), lookup, declarations_setType h,
      find?_retypeFirst, Option.map_map]
    refine Option.map_congr fun d _ => ?_
    by_cases hn : name = n
    · simp [hn, Declaration.asFloat]
    · simp [hn]

end Schema

end Equijoin
