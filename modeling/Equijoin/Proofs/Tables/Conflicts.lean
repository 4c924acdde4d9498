import Equijoin.Proofs.Tables.Merging

/-! # Conflicts between schemas

Merging compares the declarations of a schema with those of the schemas before it. It misses two
declarations of one schema that are in conflict, and it compares with the first declaration of a
name only.

* `Schema.concat`: the columns of all schemas; it is what merging comes to.
* `Schema.Clashes`, `Schema.ClashIn`: the conflicts that are found, and how they are reported.
* `Schema.Coherent`: no two declarations are in conflict.
* `merge_detects`: merging fails exactly if there is a conflict between two schemas. If no schema is
  in conflict with itself, then it finds every conflict.
-/

set_option autoImplicit false

namespace Equijoin

namespace Schema

variable {s t merged : Schema} {schemas : List Schema} {name : String} {d e : Declaration}
  {fault : SchemaFault}

/-! ## All columns -/

/-- The columns of all schemas, group by group. -/
def concat (schemas : List Schema) : Schema where
  ids := schemas.flatMap ids
  features := schemas.flatMap features
  labels := schemas.flatMap labels
  idTypes := schemas.flatMap idTypes
  featureTypes := schemas.flatMap featureTypes
  labelTypes := schemas.flatMap labelTypes

@[simp] theorem concat_nil : concat [] = empty := rfl

@[simp] theorem concat_cons (s : Schema) (schemas : List Schema) :
    concat (s :: schemas) = s.append (concat schemas) := rfl

theorem append_assoc (s t u : Schema) : (s.append t).append u = s.append (t.append u) := by
  simp [append]

@[simp] theorem empty_append (s : Schema) : empty.append s = s := by
  simp [append, empty]

@[simp] theorem append_empty (s : Schema) : s.append empty = s := by
  simp [append, empty]

theorem even_concat (h : ∀ s ∈ schemas, s.Even) : (concat schemas).Even := by
  induction schemas with
  | nil => exact even_empty
  | cons s rest ih => exact (h s (by simp)).append (ih fun t ht => h t (by simp [ht]))

theorem declarations_append_perm (hs : s.Even) :
    (s.append t).declarations.Perm (s.declarations ++ t.declarations) := by
  unfold declarations
  rw [append, declare_append .id hs.ids, declare_append .feature hs.features,
    declare_append .label hs.labels]
  -- the parts are the same, in another order
  refine List.perm_iff_count.2 fun d => ?_
  simp only [List.count_append]
  omega

theorem declarations_concat_perm (h : ∀ s ∈ schemas, s.Even) :
    (concat schemas).declarations.Perm (schemas.flatMap declarations) := by
  induction schemas with
  | nil => exact .refl _
  | cons s rest ih =>
    rw [concat_cons, List.flatMap_cons]
    exact (declarations_append_perm (h s (by simp))).trans
      ((ih fun t ht => h t (by simp [ht])).append_left _)

/-- The first declaration of a name in all schemas is the first in one of them. -/
theorem lookup_concat (h : ∀ s ∈ schemas, s.Even) (hd : (concat schemas).lookup name = some d) :
    ∃ s ∈ schemas, s.lookup name = some d := by
  induction schemas with
  | nil => cases hd
  | cons s rest ih =>
    rw [concat_cons] at hd
    rcases lookup_append (h s (by simp)) hd with hfirst | hrest
    · exact ⟨s, by simp, hfirst⟩
    · obtain ⟨t, ht, htd⟩ := ih (fun t ht => h t (by simp [ht])) hrest
      exact ⟨t, by simp [ht], htd⟩

/-! ## What merging comes to -/

theorem extend_all_eq_ok {start : Schema} (h : schemas.foldlM extend start = .ok merged) :
    merged = start.append (concat schemas) := by
  induction schemas generalizing start with
  | nil =>
    cases h
    exact (append_empty _).symm
  | cons s rest ih =>
    rw [List.foldlM_cons] at h
    obtain ⟨next, hnext, h⟩ := bind_eq_ok.1 h
    rw [ih h, extend_eq_ok hnext, append_assoc, concat_cons]

theorem merge_eq_concat (h : merge schemas = .ok merged) : merged = concat schemas := by
  rw [extend_all_eq_ok h, empty_append]

theorem conflictWith?_eq_some : s.conflictWith? d = some fault ↔
    ∃ e, s.lookup d.name = some e ∧ e.type.storage ≠ d.type.storage ∧
      fault = .conflict d.name e.type d.type := by
  unfold conflictWith?
  cases s.lookup d.name with
  | none => simp
  | some e =>
    by_cases hsame : e.type.storage = d.type.storage
    · simp [hsame]
    · simp only [hsame, if_false, Option.some.injEq, exists_eq_left', ne_eq, not_false_eq_true,
        true_and]
      exact eq_comm

theorem extend_eq_error (h : s.extend t = .error fault) :
    ∃ d ∈ t.declarations, s.conflictWith? d = some fault := by
  unfold extend at h
  split at h
  · rename_i found hfound
    cases h
    exact List.exists_of_findSome?_eq_some hfound
  · cases h

/-- Merging stops at the first schema that is in conflict with those before it. -/
theorem extend_all_eq_error {start : Schema} (h : schemas.foldlM extend start = .error fault) :
    ∃ before t after, schemas = before ++ t :: after ∧
      (start.append (concat before)).extend t = .error fault := by
  induction schemas generalizing start with
  | nil => cases h
  | cons s rest ih =>
    rw [List.foldlM_cons] at h
    rcases bind_eq_error.1 h with hfirst | ⟨next, hnext, hrest⟩
    · exact ⟨[], s, rest, rfl, by rw [concat_nil, append_empty, hfirst]⟩
    · obtain ⟨before, t, after, rfl, ht⟩ := ih hrest
      refine ⟨s :: before, t, after, rfl, ?_⟩
      rw [concat_cons, ← append_assoc, ← extend_eq_ok hnext, ht]

/-! ## Conflicts -/

/-- A declaration of the second schema has another storage than the first declaration of its name in
the first schema. -/
structure Clashes (s t : Schema) (e d : Declaration) : Prop where
  found : s.lookup d.name = some e
  mem : d ∈ t.declarations
  differs : e.type.storage ≠ d.type.storage

/-- A schema clashes with a later one, and the fault says how. -/
def ClashIn (schemas : List Schema) (fault : SchemaFault) : Prop :=
  ∃ (i j : Nat) (s t : Schema) (e d : Declaration), i < j ∧ schemas[i]? = some s ∧
    schemas[j]? = some t ∧ s.Clashes t e d ∧ fault = .conflict d.name e.type d.type

/-- No two declarations of a name have different storages. -/
def Coherent (ds : List Declaration) : Prop :=
  ∀ d ∈ ds, ∀ e ∈ ds, d.name = e.name → d.type.storage = e.type.storage

theorem clashIn_of_error (heven : ∀ s ∈ schemas, s.Even) (h : merge schemas = .error fault) :
    ClashIn schemas fault := by
  obtain ⟨before, t, after, rfl, ht⟩ := extend_all_eq_error h
  rw [empty_append] at ht
  obtain ⟨d, hd, hfault⟩ := extend_eq_error ht
  obtain ⟨e, he, hne, rfl⟩ := conflictWith?_eq_some.1 hfault
  obtain ⟨s, hs, hlookup⟩ := lookup_concat (fun s hs => heven s (by simp [hs])) he
  obtain ⟨i, hi⟩ := List.mem_iff_getElem?.1 hs
  have hlt : i < before.length := (List.getElem?_eq_some_iff.1 hi).1
  refine ⟨i, before.length, s, t, e, d, hlt, ?_, ?_, ⟨hlookup, hd, hne⟩, rfl⟩
  · rw [List.getElem?_append_left hlt, hi]
  · rw [List.getElem?_append_right (Nat.le_refl _), Nat.sub_self]
    rfl

theorem not_clashIn_of_ok (heven : ∀ s ∈ schemas, s.Even) (h : merge schemas = .ok merged) :
    ¬ ClashIn schemas fault := by
  rintro ⟨i, j, s, t, e, d, hij, hs, ht, hclash, -⟩
  obtain ⟨hi, rfl⟩ := List.getElem?_eq_some_iff.1 hs
  obtain ⟨hj, rfl⟩ := List.getElem?_eq_some_iff.1 ht
  have haccepts := List.pairwise_iff_getElem.1 ((merge_ok_iff heven).1 ⟨merged, h⟩) i j hi hj hij
  refine hclash.differs (haccepts d hclash.mem _ ?_)
  rw [storageOf?, hclash.found, Option.map_some]

theorem merge_error_iff (heven : ∀ s ∈ schemas, s.Even) :
    (∃ fault, merge schemas = .error fault) ↔ ∃ fault, ClashIn schemas fault := by
  constructor
  · rintro ⟨fault, h⟩
    exact ⟨fault, clashIn_of_error heven h⟩
  · rintro ⟨fault, hclash⟩
    cases h : merge schemas with
    | ok merged => exact absurd hclash (not_clashIn_of_ok heven h)
    | error fault => exact ⟨fault, rfl⟩

/-! ## Schemas that are not in conflict with themselves -/

theorem Coherent.storage (h : Coherent s.declarations) (hd : d ∈ s.declarations) :
    s.storageOf? d.name = some d.type.storage := by
  obtain ⟨e, he⟩ := mem_names_iff.1 (mem_names_of_mem hd)
  rw [storageOf?, he, Option.map_some, h e (mem_of_lookup he) d hd (name_of_lookup he)]

/-- Two declarations of different schemas are in conflict as the earlier of the two finds it. -/
theorem clashIn_of_differ (hcoherent : ∀ s ∈ schemas, Coherent s.declarations) {i j : Nat}
    (hij : i < j) (hs : schemas[i]? = some s) (ht : schemas[j]? = some t) (he : e ∈ s.declarations)
    (hd : d ∈ t.declarations) (hname : e.name = d.name) (hne : e.type.storage ≠ d.type.storage) :
    ∃ fault, ClashIn schemas fault := by
  obtain ⟨first, hfirst⟩ := mem_names_iff.1 (mem_names_of_mem he)
  have hsame : first.type.storage = e.type.storage :=
    hcoherent s (List.mem_of_getElem? hs) first (mem_of_lookup hfirst) e he (name_of_lookup hfirst)
  exact ⟨_, i, j, s, t, first, d, hij, hs, ht, ⟨hname ▸ hfirst, hd, hsame ▸ hne⟩, rfl⟩

theorem exists_clashIn_iff (hcoherent : ∀ s ∈ schemas, Coherent s.declarations) :
    (∃ fault, ClashIn schemas fault) ↔ ¬ Coherent (schemas.flatMap declarations) := by
  constructor
  · rintro ⟨fault, i, j, s, t, e, d, -, hs, ht, hclash, -⟩ hall
    refine hclash.differs (hall e ?_ d ?_ (name_of_lookup hclash.found))
    · exact List.mem_flatMap.2 ⟨s, List.mem_of_getElem? hs, mem_of_lookup hclash.found⟩
    · exact List.mem_flatMap.2 ⟨t, List.mem_of_getElem? ht, hclash.mem⟩
  · intro hall
    simp only [Coherent, not_forall] at hall
    obtain ⟨d, hd, e, he, hname, hne⟩ := hall
    obtain ⟨s, hs, hd⟩ := List.mem_flatMap.1 hd
    obtain ⟨t, ht, he⟩ := List.mem_flatMap.1 he
    obtain ⟨i, hi⟩ := List.mem_iff_getElem?.1 hs
    obtain ⟨j, hj⟩ := List.mem_iff_getElem?.1 ht
    rcases Nat.lt_trichotomy i j with hij | rfl | hij
    · exact clashIn_of_differ hcoherent hij hi hj hd he hname hne
    · cases hi.symm.trans hj
      exact absurd (hcoherent s hs d hd e he hname) hne
    · exact clashIn_of_differ hcoherent hij hj hi he hd hname.symm (Ne.symm hne)

end Schema

/-! ## Merging -/

/-- Merging fails exactly if a schema declares a name at another storage than an earlier schema does
first, and reports such a conflict. If it succeeds, the groups of the schemas follow one another
with their types, every declaration is there as often as in the schemas, and a name has the storage
that it has in each of them. Only for schemas that are not in conflict with themselves does it find
every conflict. -/
theorem merge_detects {schemas : List Schema} (hcheck : ∀ s ∈ schemas, s.check = .ok ()) :
    ((∃ fault, Schema.merge schemas = .error fault) ↔ ∃ fault, Schema.ClashIn schemas fault) ∧
      (∀ fault, Schema.merge schemas = .error fault → Schema.ClashIn schemas fault) ∧
      (∀ merged, Schema.merge schemas = .ok merged →
        merged = Schema.concat schemas ∧ merged.check = .ok () ∧
          merged.declarations.Perm (schemas.flatMap Schema.declarations) ∧
          ∀ s ∈ schemas, ∀ name ∈ s.names, merged.storageOf? name = s.storageOf? name) ∧
      ((∀ s ∈ schemas, Schema.Coherent s.declarations) →
        ((∃ fault, Schema.merge schemas = .error fault) ↔
          ¬ Schema.Coherent (schemas.flatMap Schema.declarations)) ∧
        ∀ merged, Schema.merge schemas = .ok merged →
          ∀ d ∈ schemas.flatMap Schema.declarations,
            merged.storageOf? d.name = some d.type.storage) := by
  have heven : ∀ s ∈ schemas, s.Even := fun s hs => Schema.even_of_check (hcheck s hs)
  refine ⟨Schema.merge_error_iff heven, fun fault => Schema.clashIn_of_error heven,
    fun merged h => ?_, fun hcoherent => ⟨?_, fun merged h d hd => ?_⟩⟩
  · obtain rfl := Schema.merge_eq_concat h
    exact ⟨rfl, Schema.check_of_even (Schema.even_concat heven),
      Schema.declarations_concat_perm heven,
      fun s hs name hname => Schema.storageOf?_merge heven h hs hname⟩
  · exact (Schema.merge_error_iff heven).trans (Schema.exists_clashIn_iff hcoherent)
  · obtain ⟨s, hs, hd⟩ := List.mem_flatMap.1 hd
    rw [Schema.storageOf?_merge heven h hs (Schema.mem_names_of_mem hd)]
    exact (hcoherent s hs).storage hd

/-- A schema that declares a name as a number and as text. -/
def twofold : Schema := ⟨["a"], ["a"], [], [.int64], [.text], []⟩

/-- The conflict of a schema with itself is not found; the same conflict of two schemas is. -/
theorem merge_detects_twofold :
    ((∀ s ∈ [twofold], s.check = .ok ()) ∧ Schema.merge [twofold] = .ok twofold ∧
      ¬ Schema.Coherent ([twofold].flatMap Schema.declarations)) ∧
    (∀ s ∈ [twofold, twofold], s.check = .ok ()) ∧
      Schema.merge [twofold, twofold] = .error (.conflict "a" .int64 .text) ∧
      Schema.ClashIn [twofold, twofold] (.conflict "a" .int64 .text) := by
  have hone : ∀ s ∈ [twofold], s.check = .ok () := by decide
  have htwo : ∀ s ∈ [twofold, twofold], s.check = .ok () := by decide
  have hfault : Schema.merge [twofold, twofold] = .error (.conflict "a" .int64 .text) := by decide
  refine ⟨⟨hone, by decide, fun h => ?_⟩, htwo, hfault, (merge_detects htwo).2.1 _ hfault⟩
  have hsame := h ⟨"a", .int64, .id⟩ (by decide) ⟨"a", .text, .feature⟩ (by decide) rfl
  cases hsame

end Equijoin
