import Equijoin.Proofs.Tables.Schemas

/-! # What a job is checked for

* `Job.Checked`: what holds of a job with which nothing is wrong.
* `Job.checked`: a job that passes its check is such a job.
* `Job.apart`: no two of its inputs declare the same column, unless they share it as a key column.
-/

set_option autoImplicit false

namespace Equijoin

/-- Nothing is wrong with a job, as far as no file has to be read. -/
structure Job.Checked (job : Job) : Prop where
  several : 2 ≤ job.datasets.length
  keyed : job.arity ≠ 0
  arity : ∀ d ∈ job.datasets, d.key.length = job.arity
  even : ∀ d ∈ job.datasets, d.schema.Even
  declared : ∀ d ∈ job.datasets, ∀ name ∈ d.key, name ∈ d.schema.names

theorem exists_mem_zipIdx {α : Type} {xs : List α} {x : α} (h : x ∈ xs) :
    ∃ i, (x, i) ∈ xs.zipIdx := by
  obtain ⟨i, hi⟩ := List.mem_iff_getElem?.1 h
  exact ⟨i, List.mk_mem_zipIdx_iff_getElem?.2 hi⟩

theorem unequalKeys?_eq_none {key : List String} {keys : List (List String)} :
    unequalKeys? (key :: keys) = none ↔ ∀ k ∈ keys, k.length = key.length := by
  unfold unequalKeys?
  rw [List.findSome?_eq_none_iff]
  constructor
  · intro h k hk
    obtain ⟨i, hi⟩ := exists_mem_zipIdx (List.mem_cons_of_mem key hk)
    by_contra hne
    have := h (k, i) hi
    simp [hne] at this
  · rintro h ⟨k, i⟩ hki
    have hmem : k ∈ key :: keys := List.fst_mem_of_mem_zipIdx hki
    rcases List.mem_cons.1 hmem with rfl | hk
    · simp
    · simp [h k hk]

namespace Job

variable {job : Job}

theorem count_of_countFault? (h : job.countFault? = none) :
    2 ≤ job.datasets.length ∧ job.datasets.length ≤ 10 := by
  unfold countFault? at h
  dsimp only at h
  split at h
  · rename_i hn
    simpa using hn
  · cases h

theorem arity_of_emptyKeyFault? (h : job.emptyKeyFault? = none) : job.arity ≠ 0 := by
  unfold emptyKeyFault? at h
  split at h
  · cases h
  · assumption

theorem length_of_arityFault? (h : job.arityFault? = none) {d : Dataset}
    (hd : d ∈ job.datasets) : d.key.length = job.arity := by
  unfold arity
  unfold arityFault? at h
  split
  · rename_i hnil
    rw [hnil] at hd
    cases hd
  · rename_i first rest hcons
    rw [hcons] at h hd
    rw [List.map_cons, unequalKeys?_eq_none] at h
    rcases List.mem_cons.1 hd with rfl | hd
    · rfl
    · exact h d.key (List.mem_map_of_mem hd)

theorem even_of_declarationFault? {d : Dataset} {i : Nat} (h : declarationFault? d i = none) :
    d.schema.Even ∧ ∀ name ∈ d.key, name ∈ d.schema.names := by
  unfold declarationFault? at h
  simp only [Option.orElse_eq_orElse, Option.orElse_eq_or, Option.or_eq_none_iff,
    Option.map_eq_none_iff] at h
  obtain ⟨hschema, hkey⟩ := h
  refine ⟨Schema.even_of_fault? hschema, fun name hname => ?_⟩
  have hone := List.findSome?_eq_none_iff.1 hkey name hname
  by_cases hlookup : (d.schema.lookup name).isSome
  · exact Schema.mem_names_iff.2 (Option.isSome_iff_exists.1 hlookup)
  · rw [if_neg hlookup] at hone
    cases hone

theorem fault?_eq_none (h : job.check = .ok ()) : job.fault? = none := by
  unfold check at h
  split at h
  · cases h
  · assumption

theorem checked (h : job.check = .ok ()) : job.Checked := by
  have hnone := fault?_eq_none h
  unfold fault? at hnone
  simp only [Option.orElse_eq_orElse, Option.orElse_eq_or, Option.or_eq_none_iff] at hnone
  obtain ⟨hcount, hempty, harity, hdeclared, -⟩ := hnone
  have hone : ∀ d ∈ job.datasets, d.schema.Even ∧ ∀ name ∈ d.key, name ∈ d.schema.names := by
    intro d hd
    rw [List.findSome?_eq_none_iff] at hdeclared
    obtain ⟨i, hi⟩ := exists_mem_zipIdx hd
    exact even_of_declarationFault? (hdeclared (d, i) hi)
  exact ⟨(count_of_countFault? hcount).1, arity_of_emptyKeyFault? hempty,
    fun d hd => length_of_arityFault? harity hd, fun d hd => (hone d hd).1,
    fun d hd => (hone d hd).2⟩

end Job

/-! ## Columns that several inputs declare -/

/-- The column is a key column, and so is the one of this name at the same place of the first key. -/
def Shares (key₀ key : List String) (name : String) : Prop :=
  ∃ p : Nat, key[p]? = some name ∧ key₀[p]? = some name

theorem Job.isShared_iff {key₀ key : List String} {name : String} :
    isShared key₀ key name = true ↔ Shares key₀ key name := by
  unfold isShared Shares
  simp only [List.any_eq_true, Bool.and_eq_true, beq_iff_eq]
  constructor
  · rintro ⟨pair, hmem, hkey, hkey₀⟩
    obtain ⟨p, hp⟩ := List.mem_iff_getElem?.1 hmem
    obtain ⟨hleft, hright⟩ := List.getElem?_zip_eq_some.1 hp
    exact ⟨p, hkey ▸ hleft, hkey₀ ▸ hright⟩
  · rintro ⟨p, hp⟩
    exact ⟨(name, name), List.mem_of_getElem? (List.getElem?_zip_eq_some.2 hp), rfl, rfl⟩

/-- A column of an input that is not shared is declared by no earlier one. -/
theorem Job.not_declared_of_clashFault? {earlier : List Dataset} {key₀ : List String} {d e : Dataset}
    {i : Nat} (h : clashFault? earlier key₀ d i = none) (he : e ∈ earlier) {name : String}
    (hname : name ∈ d.schema.names) (hown : ¬ Shares key₀ d.key name) : name ∉ e.schema.names := by
  intro hdeclared
  obtain ⟨c, hc, rfl⟩ := List.mem_map.1 hname
  have hnone := List.findSome?_eq_none_iff.1 h c hc
  rw [if_neg (by rwa [isShared_iff]), Option.map_eq_none_iff, List.findIdx?_eq_none_iff] at hnone
  obtain ⟨found, hfound⟩ := Schema.mem_names_iff.1 hdeclared
  simpa [hfound] using hnone e he

/-- A column of an input that it does not share with the first one is declared by no earlier one. -/
theorem Job.apart {job : Job} (h : job.check = .ok ()) {i j : Nat} {first d e : Dataset}
    (hfirst : job.datasets[0]? = some first) (hd : job.datasets[i]? = some d)
    (he : job.datasets[j]? = some e) (hij : j < i) {name : String} (hname : name ∈ d.schema.names)
    (hown : ¬ Shares first.key d.key name) : name ∉ e.schema.names := by
  have hnone := fault?_eq_none h
  unfold fault? at hnone
  simp only [Option.orElse_eq_orElse, Option.orElse_eq_or, Option.or_eq_none_iff] at hnone
  obtain ⟨-, -, -, -, hclash⟩ := hnone
  obtain ⟨rest, hcons⟩ : ∃ rest, job.datasets = first :: rest := by
    cases hdatasets : job.datasets with
    | nil =>
      rw [hdatasets] at hfirst
      cases hfirst
    | cons x rest =>
      rw [hdatasets] at hfirst
      cases hfirst
      exact ⟨rest, rfl⟩
  obtain ⟨k, rfl⟩ : ∃ k, i = k + 1 := ⟨i - 1, by omega⟩
  rw [hcons] at hclash hd
  have hone := List.findSome?_eq_none_iff.1 hclash (d, k) (List.mk_mem_zipIdx_iff_getElem?.2 hd)
  rw [← hcons] at hone
  exact not_declared_of_clashFault? hone
    (List.mem_of_getElem? ((List.getElem?_take_of_lt hij).trans he)) hname hown

end Equijoin
