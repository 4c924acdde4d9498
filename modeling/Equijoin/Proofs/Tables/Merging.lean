import Equijoin.Proofs.Tables.Schemas

/-! # What a merged schema says

Schemas can be merged if none of them declares a name at another storage than an earlier one. The
merged schema then has, for every name, the storage that all of them give it.

* `Schema.storageOf?`, `Schema.groupOf?`: what the first declaration of a name says.
* `Schema.Accepts`: no declaration of one schema is in conflict with another schema.
* `Schema.merge_ok_iff`: schemas can be merged exactly if each accepts all that come after it.
* `Schema.storageOf?_merge`: the storages of a merged schema.
* `Schema.reconcile_lists`: what a descriptor lists in each group.
-/

set_option autoImplicit false

namespace Equijoin

namespace Schema

variable {s t u : Schema} {name : String} {d : Declaration}

/-- The storage of the first declaration of a name. -/
def storageOf? (s : Schema) (name : String) : Option Storage :=
  (s.lookup name).map fun d => d.type.storage

/-- The group of the first declaration of a name. -/
def groupOf? (s : Schema) (name : String) : Option ColumnGroup :=
  (s.lookup name).map Declaration.group

theorem name_of_lookup (h : s.lookup name = some d) : d.name = name := by
  have hd := List.find?_some h
  exact beq_iff_eq.1 hd

theorem mem_of_lookup (h : s.lookup name = some d) : d ∈ s.declarations :=
  List.mem_of_find?_eq_some h

theorem mem_names_of_mem (h : d ∈ s.declarations) : d.name ∈ s.names := List.mem_map_of_mem h

theorem storageOf?_of_mem_names (h : name ∈ s.names) : ∃ storage, s.storageOf? name = some storage := by
  obtain ⟨d, hd⟩ := mem_names_iff.1 h
  exact ⟨d.type.storage, by rw [storageOf?, hd, Option.map_some]⟩

theorem mem_names_of_storageOf? {storage : Storage} (h : s.storageOf? name = some storage) :
    name ∈ s.names := by
  obtain ⟨d, hd, -⟩ := Option.map_eq_some_iff.1 h
  exact mem_names_iff.2 ⟨d, hd⟩

/-! ## Two schemas -/

theorem declare_append (group : ColumnGroup) {ns ms : List String} {types types' : List ColumnType}
    (h : ns.length = types.length) : declare group (ns ++ ms) (types ++ types') =
      declare group ns types ++ declare group ms types' := by
  rw [declare, List.zip_append h, List.map_append, declare, declare]

/-- What is found first in two lists whose parts alternate is found first in one of them. -/
theorem or_alternate {α : Type} {a b c a' b' c' : Option α} {x : α}
    (h : ((a.or a').or (b.or b')).or (c.or c') = some x) :
    (a.or b).or c = some x ∨ (a'.or b').or c' = some x := by
  cases a <;> cases a' <;> cases b <;> cases b' <;> cases c <;> simp_all

/-- The first declaration of a name in two schemas is the first in one of them. -/
theorem lookup_append (hs : s.Even) (h : (s.append t).lookup name = some d) :
    s.lookup name = some d ∨ t.lookup name = some d := by
  have hdeclarations : (s.append t).declarations =
      (declare .id s.ids s.idTypes ++ declare .id t.ids t.idTypes) ++
      (declare .feature s.features s.featureTypes ++
        declare .feature t.features t.featureTypes) ++
      (declare .label s.labels s.labelTypes ++ declare .label t.labels t.labelTypes) := by
    rw [← declare_append .id hs.ids, ← declare_append .feature hs.features,
      ← declare_append .label hs.labels]
    rfl
  unfold lookup at h ⊢
  rw [hdeclarations] at h
  unfold declarations
  simp only [List.find?_append] at h ⊢
  exact or_alternate h

/-- No declaration of the second schema is in conflict with the first. -/
def Accepts (s t : Schema) : Prop :=
  ∀ d ∈ t.declarations, ∀ storage, s.storageOf? d.name = some storage → storage = d.type.storage

theorem conflictWith?_eq_none : s.conflictWith? d = none ↔
    ∀ storage, s.storageOf? d.name = some storage → storage = d.type.storage := by
  unfold conflictWith? storageOf?
  cases s.lookup d.name with
  | none => simp
  | some e =>
    dsimp only
    rw [Option.map_some]
    split
    · rename_i hsame
      simp [hsame]
    · rename_i hother
      constructor
      · intro h
        cases h
      · exact fun h => absurd (h _ rfl) hother

theorem extend_ok_iff : s.extend t = .ok u ↔ s.Accepts t ∧ u = s.append t := by
  have hnone : t.declarations.findSome? s.conflictWith? = none ↔ s.Accepts t := by
    rw [List.findSome?_eq_none_iff]
    exact forall₂_congr fun d _ => conflictWith?_eq_none
  unfold extend
  split
  · rename_i fault hfault
    constructor
    · intro h
      cases h
    · rintro ⟨haccepts, -⟩
      rw [hnone.2 haccepts] at hfault
      cases hfault
  · rename_i hfree
    rw [Except.ok.injEq, eq_comm]
    exact ⟨fun h => ⟨hnone.1 hfree, h⟩, fun h => h.2⟩

theorem Accepts.of_lookup (h : s.Accepts t) (hs : name ∈ s.names) (ht : t.lookup name = some d) :
    s.storageOf? name = some d.type.storage := by
  obtain ⟨storage, hstorage⟩ := storageOf?_of_mem_names hs
  rw [hstorage, h d (mem_of_lookup ht) storage (by rw [name_of_lookup ht, hstorage])]

theorem storageOf?_append_left (hs : s.Even) (ht : t.Even) (h : s.Accepts t)
    (hname : name ∈ s.names) : (s.append t).storageOf? name = s.storageOf? name := by
  obtain ⟨d, hd⟩ := mem_names_iff.1 ((mem_names_append hs ht).2 (.inl hname))
  rw [storageOf?, hd, Option.map_some]
  rcases lookup_append hs hd with hfirst | hsecond
  · rw [storageOf?, hfirst, Option.map_some]
  · rw [h.of_lookup hname hsecond]

theorem storageOf?_append_right (hs : s.Even) (ht : t.Even) (h : s.Accepts t)
    (hname : name ∈ t.names) : (s.append t).storageOf? name = t.storageOf? name := by
  obtain ⟨e, he⟩ := mem_names_iff.1 hname
  have hsecond : t.storageOf? name = some e.type.storage := by
    rw [storageOf?, he, Option.map_some]
  by_cases hfirst : name ∈ s.names
  · rw [storageOf?_append_left hs ht h hfirst, h.of_lookup hfirst he, hsecond]
  · obtain ⟨d, hd⟩ := mem_names_iff.1 ((mem_names_append hs ht).2 (.inr hname))
    rcases lookup_append hs hd with hd' | hd'
    · exact absurd (mem_names_iff.2 ⟨d, hd'⟩) hfirst
    · rw [storageOf?, hd, storageOf?, hd']

theorem accepts_append (hs : s.Even) (ht : t.Even) (h : s.Accepts t) :
    (s.append t).Accepts u ↔ s.Accepts u ∧ t.Accepts u := by
  constructor
  · intro hboth
    refine ⟨fun d hd storage hstorage => hboth d hd storage ?_, fun d hd storage hstorage =>
      hboth d hd storage ?_⟩
    · rw [storageOf?_append_left hs ht h (mem_names_of_storageOf? hstorage), hstorage]
    · rw [storageOf?_append_right hs ht h (mem_names_of_storageOf? hstorage), hstorage]
  · rintro ⟨hfirst, hsecond⟩ d hd storage hstorage
    by_cases hname : d.name ∈ s.names
    · rw [storageOf?_append_left hs ht h hname] at hstorage
      exact hfirst d hd storage hstorage
    · by_cases hname' : d.name ∈ t.names
      · rw [storageOf?_append_right hs ht h hname'] at hstorage
        exact hsecond d hd storage hstorage
      · have hnone : d.name ∉ (s.append t).names := fun hmem =>
          ((mem_names_append hs ht).1 hmem).elim hname hname'
        exact absurd (mem_names_of_storageOf? hstorage) hnone

/-! ## All schemas -/

theorem even_empty : empty.Even := ⟨rfl, rfl, rfl⟩

theorem empty_accepts (t : Schema) : empty.Accepts t := by
  intro d _ storage hstorage
  cases hstorage

theorem extend_all_ok_iff {schemas : List Schema} {start : Schema} (hstart : start.Even)
    (heven : ∀ s ∈ schemas, s.Even) : (∃ merged, schemas.foldlM extend start = .ok merged) ↔
      (∀ s ∈ schemas, start.Accepts s) ∧ schemas.Pairwise Accepts := by
  induction schemas generalizing start with
  | nil =>
    constructor
    · exact fun _ => ⟨fun s hs => (nomatch hs), .nil⟩
    · exact fun _ => ⟨start, rfl⟩
  | cons s rest ih =>
    have hs := heven s List.mem_cons_self
    have hrest := fun s' hs' => heven s' (List.mem_cons_of_mem _ hs')
    rw [List.foldlM_cons, List.pairwise_cons]
    constructor
    · rintro ⟨merged, h⟩
      obtain ⟨next, hnext, h⟩ := bind_eq_ok.1 h
      obtain ⟨haccepts, rfl⟩ := extend_ok_iff.1 hnext
      obtain ⟨hall, hpairs⟩ := (ih (hstart.append hs) hrest).1 ⟨merged, h⟩
      have hboth := fun s' hs' => (accepts_append hstart hs haccepts).1 (hall s' hs')
      refine ⟨fun s' hs' => ?_, fun s' hs' => (hboth s' hs').2, hpairs⟩
      rcases List.mem_cons.1 hs' with rfl | hs'
      · exact haccepts
      · exact (hboth s' hs').1
    · rintro ⟨hall, hfirst, hpairs⟩
      have haccepts := hall s List.mem_cons_self
      obtain ⟨merged, h⟩ := (ih (hstart.append hs) hrest).2 ⟨fun s' hs' =>
        (accepts_append hstart hs haccepts).2
          ⟨hall s' (List.mem_cons_of_mem _ hs'), hfirst s' hs'⟩, hpairs⟩
      exact ⟨merged, bind_eq_ok.2 ⟨_, extend_ok_iff.2 ⟨haccepts, rfl⟩, h⟩⟩

/-- Schemas can be merged exactly if each of them accepts all that come after it. -/
theorem merge_ok_iff {schemas : List Schema} (heven : ∀ s ∈ schemas, s.Even) :
    (∃ merged, merge schemas = .ok merged) ↔ schemas.Pairwise Accepts := by
  unfold merge
  rw [extend_all_ok_iff even_empty heven]
  exact and_iff_right fun s _ => empty_accepts s

/-- A merged schema has for every name the storage that it has in all schemas that declare it. -/
theorem storageOf?_merge {schemas : List Schema} (heven : ∀ s ∈ schemas, s.Even) {merged : Schema}
    (h : merge schemas = .ok merged) (hs : s ∈ schemas) (hname : name ∈ s.names) :
    merged.storageOf? name = s.storageOf? name := by
  have hfold : ∀ (schemas : List Schema) (start : Schema), start.Even →
      (∀ s ∈ schemas, s.Even) → schemas.foldlM extend start = .ok merged →
        (name ∈ start.names → merged.storageOf? name = start.storageOf? name) ∧
          ∀ s ∈ schemas, name ∈ s.names → merged.storageOf? name = s.storageOf? name := by
    intro schemas
    induction schemas with
    | nil =>
      intro start _ _ h
      cases h
      exact ⟨fun _ => rfl, fun s hs => (nomatch hs)⟩
    | cons first rest ih =>
      intro start hstart hall h
      rw [List.foldlM_cons] at h
      obtain ⟨next, hnext, h⟩ := bind_eq_ok.1 h
      obtain ⟨haccepts, rfl⟩ := extend_ok_iff.1 hnext
      have hfirst := hall first List.mem_cons_self
      obtain ⟨hbefore, hafter⟩ := ih _ (hstart.append hfirst)
        (fun s' hs' => hall s' (List.mem_cons_of_mem _ hs')) h
      refine ⟨fun hmem => ?_, fun s' hs' hmem => ?_⟩
      · rw [hbefore ((mem_names_append hstart hfirst).2 (.inl hmem)),
          storageOf?_append_left hstart hfirst haccepts hmem]
      · rcases List.mem_cons.1 hs' with rfl | hs'
        · rw [hbefore ((mem_names_append hstart hfirst).2 (.inr hmem)),
            storageOf?_append_right hstart hfirst haccepts hmem]
        · exact hafter s' hs' hmem
  exact (hfold schemas empty even_empty heven h).2 s hs hname

end Schema

/-! ## Descriptors -/

namespace Descriptor

/-- The names of a group. -/
def names (d : Descriptor) : ColumnGroup → List String
  | .id => d.ids
  | .feature => d.features
  | .label => d.labels

/-- The type names of a group. -/
def types (d : Descriptor) : ColumnGroup → List String
  | .id => d.idTypes
  | .feature => d.featureTypes
  | .label => d.labelTypes

variable (out : Descriptor) (group : ColumnGroup)

theorem names_add (d : Declaration) : (out.add d).names group =
    out.names group ++ if d.group = group then [d.name] else [] := by
  unfold add
  cases d.group <;> cases group <;> simp [names]

theorem types_add (d : Declaration) : (out.add d).types group =
    out.types group ++ if d.group = group then [d.type.storage.name] else [] := by
  unfold add
  cases d.group <;> cases group <;> simp [types]

theorem names_addAll (found : List Declaration) : (found.foldl add out).names group =
    out.names group ++ (found.filter (·.group = group)).map Declaration.name := by
  induction found generalizing out with
  | nil => simp
  | cons d found ih =>
    rw [List.foldl_cons, ih, names_add, List.append_assoc]
    by_cases hd : d.group = group
    · simp [hd]
    · simp [hd]

theorem types_addAll (found : List Declaration) : (found.foldl add out).types group =
    out.types group ++ (found.filter (·.group = group)).map fun d => d.type.storage.name := by
  induction found generalizing out with
  | nil => simp
  | cons d found ih =>
    rw [List.foldl_cons, ih, types_add, List.append_assoc]
    by_cases hd : d.group = group
    · simp [hd]
    · simp [hd]

end Descriptor

namespace Schema

variable {s : Schema} {header : List String} {types : List Storage} {out : Descriptor}

theorem reconcile_eq_ok (h : s.reconcile header = .ok out) :
    ∃ found, List.Forall₂ (fun name d => s.lookup name = some d) header found ∧
      out = found.foldl Descriptor.add Descriptor.empty := by
  obtain ⟨found, hfound, h⟩ := bind_eq_ok.1 h
  split at h
  · cases h
  · refine ⟨found, (mapM_eq_ok.1 hfound).imp fun name d hd => ?_, (Except.ok.inj h).symm⟩
    split at hd
    · rename_i e he
      rw [he, Except.ok.inj hd]
    · cases hd

/-- There are as many types as names in every group. -/
theorem reconcile_lengths (h : s.reconcile header = .ok out) (group : ColumnGroup) :
    (out.names group).length = (out.types group).length := by
  obtain ⟨found, -, rfl⟩ := reconcile_eq_ok h
  have hempty : (Descriptor.empty.names group).length = (Descriptor.empty.types group).length := by
    cases group <;> rfl
  rw [Descriptor.names_addAll, Descriptor.types_addAll, List.length_append, List.length_append,
    hempty, List.length_map, List.length_map]

/-- The names and types of a group are those of its columns, in the order of the header. -/
theorem reconcile_lists (h : s.reconcile header = .ok out)
    (htypes : List.Forall₂ (fun name storage => s.storageOf? name = some storage) header types)
    (group : ColumnGroup) :
    out.names group = header.filter (fun name => s.groupOf? name = some group) ∧
      out.types group = ((header.zip types).filter
        fun p => s.groupOf? p.1 = some group).map fun p => p.2.name := by
  obtain ⟨found, hfound, rfl⟩ := reconcile_eq_ok h
  clear h
  have hempty : Descriptor.empty.names group = [] ∧ Descriptor.empty.types group = [] := by
    cases group <;> exact ⟨rfl, rfl⟩
  rw [Descriptor.names_addAll, Descriptor.types_addAll, hempty.1, hempty.2, List.nil_append,
    List.nil_append]
  induction hfound generalizing types with
  | nil => simp
  | @cons name d header found hd _ ih =>
    obtain ⟨storage, rest, hstorage, hrest, rfl⟩ := List.forall₂_cons_left_iff.1 htypes
    obtain ⟨hnames, htypes⟩ := ih hrest
    have hgroup : s.groupOf? name = some d.group := by
      rw [groupOf?, hd, Option.map_some]
    have hname := name_of_lookup hd
    have hsame : d.type.storage = storage := by
      rw [storageOf?, hd, Option.map_some] at hstorage
      exact Option.some.inj hstorage
    by_cases hd' : d.group = group
    · simp [hgroup, hd', hnames, htypes, hname, hsame]
    · simp [hgroup, hd', hnames, htypes]

end Schema

end Equijoin
