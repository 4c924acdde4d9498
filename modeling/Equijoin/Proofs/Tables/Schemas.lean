import Equijoin.Coercion
import Equijoin.Proofs.Tables.Loading
import Equijoin.Schema.Merge

/-! # The names that schemas declare

* `Schema.names`: the names of the declared columns.
* `Schema.Even`: as many types as names in every group, as a job is checked for.
* `names_promote`, `mem_names_merge`: promotion keeps the names, merging keeps all of them.
* `lookup_promote`: promotion makes floats of the given names, and of no others.
* `names_of_resolve`: a header that a schema resolves has the declared names.
* `reconcile_ok`: a merged schema describes every output that has its names.
-/

set_option autoImplicit false

namespace Equijoin

namespace Schema

variable {s t : Schema} {name : String}

/-- The names of the declared columns. -/
def names (s : Schema) : List String := s.declarations.map Declaration.name

theorem names_declare (group : ColumnGroup) (ns : List String) (types : List ColumnType) :
    (declare group ns types).map Declaration.name = ns.take types.length := by
  unfold declare
  rw [List.map_map]
  induction ns generalizing types with
  | nil => simp
  | cons n ns ih =>
    cases types with
    | nil => simp
    | cons type types => simpa using ih types

theorem names_eq (s : Schema) : s.names = s.ids.take s.idTypes.length ++
    s.features.take s.featureTypes.length ++ s.labels.take s.labelTypes.length := by
  simp only [names, declarations, List.map_append, names_declare]

theorem mem_names_iff : name ∈ s.names ↔ ∃ d, s.lookup name = some d := by
  unfold names lookup
  rw [← Option.isSome_iff_exists, List.find?_isSome]
  simp only [List.mem_map, beq_iff_eq]

/-! ## Promotion -/

theorem replaceType?_length {types types' : List ColumnType} {i : Nat} {type : ColumnType}
    (h : replaceType? types i type = some types') : types'.length = types.length := by
  unfold replaceType? at h
  split at h
  · cases h
    exact List.length_set
  · cases h

theorem setType_shape (s : Schema) (name : String) (type : ColumnType) :
    (s.setType name type).ids = s.ids ∧ (s.setType name type).features = s.features ∧
      (s.setType name type).labels = s.labels ∧
      (s.setType name type).idTypes.length = s.idTypes.length ∧
      (s.setType name type).featureTypes.length = s.featureTypes.length ∧
      (s.setType name type).labelTypes.length = s.labelTypes.length := by
  unfold setType
  cases h : s.setType? name type with
  | none => exact ⟨rfl, rfl, rfl, rfl, rfl, rfl⟩
  | some s' =>
    unfold setType? at h
    split at h
    · obtain ⟨ts, hts, rfl⟩ := Option.map_eq_some_iff.1 h
      exact ⟨rfl, rfl, rfl, replaceType?_length hts, rfl, rfl⟩
    · split at h
      · obtain ⟨ts, hts, rfl⟩ := Option.map_eq_some_iff.1 h
        exact ⟨rfl, rfl, rfl, rfl, replaceType?_length hts, rfl⟩
      · split at h
        · obtain ⟨ts, hts, rfl⟩ := Option.map_eq_some_iff.1 h
          exact ⟨rfl, rfl, rfl, rfl, rfl, replaceType?_length hts⟩
        · cases h

theorem names_setType (s : Schema) (name : String) (type : ColumnType) :
    (s.setType name type).names = s.names := by
  obtain ⟨h₁, h₂, h₃, h₄, h₅, h₆⟩ := setType_shape s name type
  rw [names_eq, names_eq, h₁, h₂, h₃, h₄, h₅, h₆]

theorem names_promote (s : Schema) (ns : List String) : (s.promote ns).names = s.names := by
  unfold promote
  induction ns generalizing s with
  | nil => rfl
  | cons n ns ih => rw [List.foldl_cons, ih, names_setType]

/-! ## Even schemas -/

/-- Every group has as many types as names. -/
structure Even (s : Schema) : Prop where
  ids : s.ids.length = s.idTypes.length
  features : s.features.length = s.featureTypes.length
  labels : s.labels.length = s.labelTypes.length

theorem even_of_fault? (h : s.fault? = none) : s.Even := by
  have hgroup : ∀ {group : String} {ns : List String} {types : List ColumnType},
      unevenGroup? group ns types = none → ns.length = types.length := by
    intro group ns types h
    unfold unevenGroup? at h
    split at h
    · assumption
    · cases h
  unfold fault? at h
  simp only [Option.orElse_eq_orElse, Option.orElse_eq_or, Option.or_eq_none_iff] at h
  exact ⟨hgroup h.1, hgroup h.2.1, hgroup h.2.2⟩

theorem check_of_even (h : s.Even) : s.check = .ok () := by
  have hfault : s.fault? = none := by
    unfold fault? unevenGroup?
    rw [if_pos h.ids, if_pos h.features, if_pos h.labels]
    rfl
  unfold check
  rw [hfault]

theorem even_of_check (h : s.check = .ok ()) : s.Even := by
  unfold check at h
  split at h
  · cases h
  · rename_i hfault
    exact even_of_fault? hfault

theorem Even.setType (h : s.Even) (name : String) (type : ColumnType) :
    (s.setType name type).Even := by
  obtain ⟨h₁, h₂, h₃, h₄, h₅, h₆⟩ := setType_shape s name type
  exact ⟨by rw [h₁, h₄, h.ids], by rw [h₂, h₅, h.features], by rw [h₃, h₆, h.labels]⟩

theorem Even.promote (h : s.Even) (ns : List String) : (s.promote ns).Even := by
  unfold Schema.promote
  induction ns generalizing s with
  | nil => exact h
  | cons n ns ih => exact ih (h.setType n .float64)

/-! ## Types -/

theorem find?_declare (group : ColumnGroup) (ns : List String) (types : List ColumnType)
    (name : String) : ((declare group ns types).find? (·.name == name)).map Declaration.type =
      (ns.idxOf? name).bind fun i => types[i]? := by
  induction ns generalizing types with
  | nil => rfl
  | cons n ns ih =>
    cases types with
    | nil =>
      rw [declare, List.zip_nil_right]
      cases (n :: ns).idxOf? name <;> rfl
    | cons type types =>
      have hcons : declare group (n :: ns) (type :: types) =
          ⟨n, type, group⟩ :: declare group ns types := rfl
      rw [hcons, List.idxOf?_cons]
      by_cases hn : n = name
      · simp [hn]
      · have hne : (n == name) = false := by simpa using hn
        rw [List.find?_cons_of_neg (by simpa using hn), ih, hne]
        cases ns.idxOf? name <;> rfl

theorem lookup_type (s : Schema) (name : String) : (s.lookup name).map Declaration.type =
    (((s.ids.idxOf? name).bind fun i => s.idTypes[i]?).or
      ((s.features.idxOf? name).bind fun i => s.featureTypes[i]?)).or
        ((s.labels.idxOf? name).bind fun i => s.labelTypes[i]?) := by
  rw [lookup, declarations, List.find?_append, List.find?_append, Option.map_or, Option.map_or,
    find?_declare, find?_declare, find?_declare]

theorem idxOf?_lt {ns : List String} {i : Nat} (h : ns.idxOf? name = some i) : i < ns.length :=
  (List.findIdx?_eq_some_iff_getElem.1 h).1

theorem getElem?_set_idxOf? {ns : List String} {types : List ColumnType} {i : Nat}
    (hlength : ns.length = types.length) (h : ns.idxOf? name = some i) (type : ColumnType)
    (other : String) : ((ns.idxOf? other).bind fun j => (types.set i type)[j]?) =
      if other = name then some type else (ns.idxOf? other).bind fun j => types[j]? := by
  have hi : i < types.length := hlength ▸ idxOf?_lt h
  split
  · rename_i hsame
    rw [hsame, h, Option.bind_some, List.getElem?_set_self hi]
  · rename_i hother
    cases hj : ns.idxOf? other with
    | none => rfl
    | some j =>
      rw [Option.bind_some, Option.bind_some]
      refine List.getElem?_set_ne fun hij => hother ?_
      obtain ⟨hlt, hat, -⟩ := List.findIdx?_eq_some_iff_getElem.1 h
      obtain ⟨hlt', hat', -⟩ := List.findIdx?_eq_some_iff_getElem.1 hj
      subst hij
      rw [← (beq_iff_eq.1 hat'), ← (beq_iff_eq.1 hat)]

theorem replaceType?_of_lt {types : List ColumnType} {i : Nat} (h : i < types.length)
    (type : ColumnType) : replaceType? types i type = some (types.set i type) := if_pos h

theorem lookup_setType (h : s.Even) (hname : name ∈ s.names) (type : ColumnType) (other : String) :
    ((s.setType name type).lookup other).map Declaration.type =
      if other = name then some type else (s.lookup other).map Declaration.type := by
  rw [lookup_type, lookup_type, setType]
  unfold setType?
  cases hids : s.ids.idxOf? name with
  | some i =>
    simp only [replaceType?_of_lt (h.ids ▸ idxOf?_lt hids), Option.map_some, Option.getD_some,
      getElem?_set_idxOf? h.ids hids]
    split
    · rfl
    · rfl
  | none =>
    cases hfeatures : s.features.idxOf? name with
    | some i =>
      simp only [replaceType?_of_lt (h.features ▸ idxOf?_lt hfeatures), Option.map_some,
        Option.getD_some, getElem?_set_idxOf? h.features hfeatures]
      split
      · rename_i hother
        rw [hother, hids]
        rfl
      · rfl
    | none =>
      cases hlabels : s.labels.idxOf? name with
      | some i =>
        simp only [replaceType?_of_lt (h.labels ▸ idxOf?_lt hlabels), Option.map_some,
          Option.getD_some, getElem?_set_idxOf? h.labels hlabels]
        split
        · rename_i hother
          rw [hother, hids, hfeatures]
          rfl
        · rfl
      | none =>
        -- a declared name is in some group
        obtain ⟨d, hd⟩ := mem_names_iff.1 hname
        have htype := lookup_type s name
        rw [hd, hids, hfeatures, hlabels] at htype
        cases htype

/-- Promotion makes floats of declared names, and changes no other type. -/
theorem lookup_promote (h : s.Even) {ns : List String} (hns : ∀ n ∈ ns, n ∈ s.names)
    (name : String) : ((s.promote ns).lookup name).map Declaration.type =
      if name ∈ ns then some .float64 else (s.lookup name).map Declaration.type := by
  unfold promote
  induction ns generalizing s with
  | nil => simp
  | cons n ns ih =>
    have hrest : ∀ m ∈ ns, m ∈ (s.setType n .float64).names := fun m hm => by
      rw [names_setType]
      exact hns m (by simp [hm])
    rw [List.foldl_cons, ih (h.setType n .float64) hrest, lookup_setType h (hns n (by simp))]
    by_cases hmem : name ∈ ns
    · simp [hmem]
    · simp [hmem]

/-! ## Merging -/

theorem Even.append (hs : s.Even) (ht : t.Even) : (s.append t).Even :=
  ⟨by simp [Schema.append, hs.ids, ht.ids], by simp [Schema.append, hs.features, ht.features],
    by simp [Schema.append, hs.labels, ht.labels]⟩

theorem mem_names_append (hs : s.Even) (ht : t.Even) :
    name ∈ (s.append t).names ↔ name ∈ s.names ∨ name ∈ t.names := by
  have hall : ∀ {u : Schema}, u.Even → (name ∈ u.names ↔
      name ∈ u.ids ∨ name ∈ u.features ∨ name ∈ u.labels) := by
    intro u hu
    rw [names_eq, ← hu.ids, ← hu.features, ← hu.labels]
    simp
  rw [hall (hs.append ht), hall hs, hall ht]
  simp only [Schema.append, List.mem_append]
  tauto

theorem extend_eq_ok {u : Schema} (h : s.extend t = .ok u) : u = s.append t := by
  unfold extend at h
  split at h
  · cases h
  · exact (Except.ok.inj h).symm

/-- A merged schema declares what one of the schemas does. -/
theorem mem_names_merge {schemas : List Schema} (heven : ∀ s ∈ schemas, s.Even) {merged : Schema}
    (h : merge schemas = .ok merged) : name ∈ merged.names ↔ ∃ s ∈ schemas, name ∈ s.names := by
  have hfold : ∀ (schemas : List Schema) (start : Schema), start.Even →
      (∀ s ∈ schemas, s.Even) → schemas.foldlM extend start = .ok merged →
        (name ∈ merged.names ↔ name ∈ start.names ∨ ∃ s ∈ schemas, name ∈ s.names) := by
    intro schemas
    induction schemas with
    | nil =>
      intro start _ _ h
      cases h
      simp
    | cons s rest ih =>
      intro start hstart hall h
      rw [List.foldlM_cons] at h
      obtain ⟨next, hnext, h⟩ := bind_eq_ok.1 h
      obtain rfl := extend_eq_ok hnext
      have hs := hall s (by simp)
      rw [ih _ (hstart.append hs) (fun s' h' => hall s' (by simp [h'])) h,
        mem_names_append hstart hs]
      simp [or_assoc]
  rw [hfold schemas empty ⟨rfl, rfl, rfl⟩ heven h]
  simp [names, declarations, empty, declare]

/-! ## Headers -/

/-- A header that a schema resolves has the declared names. -/
theorem names_of_resolve {header : List String} {types : List ColumnType}
    (h : s.resolve header = .ok types) : name ∈ header ↔ name ∈ s.names := by
  obtain ⟨htypes, hall⟩ := resolve_eq_ok.1 h
  constructor
  · intro hname
    obtain ⟨type, -, d, hd, -⟩ := exists_right_of_forall₂ htypes hname
    exact mem_names_iff.2 ⟨d, hd⟩
  · intro hname
    obtain ⟨d, hd, rfl⟩ := List.mem_map.1 hname
    exact hall d hd

theorem names_of_load {files : FileTree} {path : FilePath} {delimiter : UInt8} {t : Table}
    (h : Table.load files path delimiter s = .ok t) : name ∈ t.columns ↔ name ∈ s.names := by
  obtain ⟨sheet, -, hsheet⟩ := Table.load_eq_ok.1 h
  obtain ⟨types, htypes, hcolumns, -⟩ := Table.ofSheet_eq_ok.1 hsheet
  rw [hcolumns, names_of_resolve htypes]

/-- A schema describes every output that has its names. -/
theorem reconcile_ok {header : List String} (h : ∀ name, name ∈ header ↔ name ∈ s.names) :
    ∃ descriptor, s.reconcile header = .ok descriptor := by
  have hfound : ∃ found, s.declarationsOf header = .ok found := by
    unfold declarationsOf
    have hall : ∀ name ∈ header, ∃ d, s.lookup name = some d :=
      fun name hname => mem_names_iff.1 ((h name).1 hname)
    clear h
    induction header with
    | nil => exact ⟨[], rfl⟩
    | cons name rest ih =>
      obtain ⟨d, hd⟩ := hall name (by simp)
      obtain ⟨ds, hds⟩ := ih fun n hn => hall n (by simp [hn])
      refine ⟨d :: ds, ?_⟩
      rw [List.mapM_cons, hd, hds]
      rfl
  obtain ⟨found, hfound⟩ := hfound
  refine ⟨found.foldl Descriptor.add Descriptor.empty, ?_⟩
  unfold reconcile
  rw [hfound, ok_bind]
  have hnone : (s.declarations.find? fun d => !header.contains d.name) = none := by
    refine List.find?_eq_none.2 fun d hd => ?_
    have hmem := (h d.name).2 (List.mem_map_of_mem hd)
    simpa using hmem
  rw [hnone]

end Schema

end Equijoin
