import Equijoin.Proofs.Tables.Checks
import Equijoin.TaskFile

/-! # Tasks that are accepted

* `Job.Valid`: what a run asks of a job. `Job.check_eq_ok`: this is what a job is checked for.
* `TaskFile.Describes`: the job that a task stands for. Every input has the key that is given with
  it, or else the key of its own index in the list for all inputs.
* `TaskFile.toJob_eq_ok`: a task becomes the job that it stands for, if this job is valid.
* `TaskFile.toJob_accepts`: the tasks that become jobs, and what these jobs are.
-/

set_option autoImplicit false

namespace Equijoin

/-! ## Valid jobs -/

/-- What a run asks of a job before it reads a file. -/
structure Job.Valid (job : Job) : Prop where
  count : 2 ≤ job.datasets.length ∧ job.datasets.length ≤ 10
  keyed : ∀ d ∈ job.datasets, d.key ≠ []
  arity : ∀ d ∈ job.datasets, ∀ e ∈ job.datasets, d.key.length = e.key.length
  even : ∀ d ∈ job.datasets, d.schema.Even
  declared : ∀ d ∈ job.datasets, ∀ name ∈ d.key, name ∈ d.schema.names
  /-- A name that two datasets declare is a key column of the later one, and of dataset 0 at the
  same place. -/
  apart : ∀ (i j : Nat) (d e first : Dataset), i < j → job.datasets[i]? = some d →
    job.datasets[j]? = some e → job.datasets[0]? = some first →
      ∀ name ∈ d.schema.names, name ∈ e.schema.names → Shares first.key e.key name

theorem Schema.fault?_of_even {s : Schema} (h : s.Even) : s.fault? = none := by
  have hcheck := check_of_even h
  unfold check at hcheck
  split at hcheck
  · cases hcheck
  · assumption

namespace Job

variable {job : Job}

theorem valid_of_check (h : job.check = .ok ()) : job.Valid := by
  have hchecked := checked h
  have hnone := fault?_eq_none h
  unfold fault? at hnone
  simp only [Option.orElse_eq_orElse, Option.orElse_eq_or, Option.or_eq_none_iff] at hnone
  refine ⟨count_of_countFault? hnone.1, fun d hd hempty => ?_, fun d hd e he => ?_, hchecked.even,
    hchecked.declared, fun i j d e first hij hd he hfirst name hname hname' => ?_⟩
  · refine hchecked.keyed ?_
    rw [← hchecked.arity d hd, hempty, List.length_nil]
  · rw [hchecked.arity d hd, hchecked.arity e he]
  · by_contra hown
    exact apart h hfirst he hd hij hname' hown hname

theorem declarationFault?_of_valid (h : job.Valid) {d : Dataset} (hd : d ∈ job.datasets) (i : Nat) :
    declarationFault? d i = none := by
  unfold declarationFault?
  simp only [Option.orElse_eq_orElse, Option.orElse_eq_or, Option.or_eq_none_iff,
    Option.map_eq_none_iff]
  refine ⟨Schema.fault?_of_even (h.even d hd), List.findSome?_eq_none_iff.2 fun name hname => ?_⟩
  obtain ⟨found, hfound⟩ := Schema.mem_names_iff.1 (h.declared d hd name hname)
  rw [hfound]
  rfl

/-- A column that the dataset does not share is declared by none of the datasets before it. -/
theorem clashFault?_of_valid (h : job.Valid) {first d : Dataset} {i : Nat}
    (hfirst : job.datasets[0]? = some first) (hd : job.datasets[i]? = some d) :
    clashFault? (job.datasets.take i) first.key d i = none := by
  refine List.findSome?_eq_none_iff.2 fun c hc => ?_
  by_cases hshared : isShared first.key d.key c.name = true
  · rw [if_pos hshared]
  · rw [if_neg hshared, Option.map_eq_none_iff, List.findIdx?_eq_none_iff]
    intro e he
    obtain ⟨j, hj⟩ := List.mem_iff_getElem?.1 he
    rw [List.getElem?_take] at hj
    split at hj
    · rename_i hji
      rw [Option.isSome_eq_false_iff, Option.isNone_iff_eq_none]
      by_contra hlookup
      obtain ⟨found, hfound⟩ := Option.ne_none_iff_exists'.1 hlookup
      exact hshared (isShared_iff.2 (h.apart j i e d first hji hj hd hfirst c.name
        (Schema.mem_names_iff.2 ⟨found, hfound⟩) (List.mem_map_of_mem hc)))
    · cases hj

theorem check_of_valid (h : job.Valid) : job.check = .ok () := by
  obtain ⟨first, rest, hcons⟩ : ∃ first rest, job.datasets = first :: rest := by
    refine List.exists_cons_of_ne_nil fun hnil => ?_
    have hcount := h.count.1
    rw [hnil, List.length_nil] at hcount
    omega
  have hfirst : job.datasets[0]? = some first := by rw [hcons]; rfl
  have hmem : first ∈ job.datasets := List.mem_of_getElem? hfirst
  have hcount : job.countFault? = none := if_pos (by simpa using h.count)
  have harity : job.arity = first.key.length := by
    unfold arity
    rw [hcons]
  have hempty : job.emptyKeyFault? = none := by
    refine if_neg ?_
    rw [harity]
    exact fun hzero => h.keyed first hmem (List.length_eq_zero_iff.1 hzero)
  have hequal : job.arityFault? = none := by
    unfold arityFault?
    rw [hcons, List.map_cons, unequalKeys?_eq_none]
    intro key hkey
    obtain ⟨d, hd, rfl⟩ := List.mem_map.1 hkey
    exact h.arity d (hcons ▸ List.mem_cons_of_mem first hd) first hmem
  have hdeclared : ∀ p ∈ job.datasets.zipIdx, declarationFault? p.1 p.2 = none :=
    fun p hp => declarationFault?_of_valid h (List.fst_mem_of_mem_zipIdx hp) p.2
  have hclash : ∀ p ∈ rest.zipIdx,
      clashFault? (job.datasets.take (p.2 + 1)) first.key p.1 (p.2 + 1) = none := by
    refine fun p hp => clashFault?_of_valid h hfirst ?_
    rw [hcons, List.getElem?_cons_succ]
    exact List.mk_mem_zipIdx_iff_getElem?.1 hp
  have hfault : job.fault? = none := by
    unfold fault?
    rw [hcount, hempty, hequal, List.findSome?_eq_none_iff.2 hdeclared]
    simp only [hcons] at hclash ⊢
    exact List.findSome?_eq_none_iff.2 hclash
  unfold check
  rw [hfault]

/-- A job is checked for what a run asks of it. -/
theorem check_eq_ok : job.check = .ok () ↔ job.Valid := ⟨valid_of_check, check_of_valid⟩

end Job

/-! ## Jobs of tasks -/

namespace TaskFile

/-- The key of an input: the one given with it, or else the one of its index in the list for all
inputs. -/
def keyOf? (keys : List (List String)) (i : Nat) (input : TaskInput) : Option (List String) :=
  input.key.or keys[i]?

/-- The datasets are the inputs, in order, with their keys and without delimiters. -/
def Pairs (inputs : List TaskInput) (keys : List (List String)) (datasets : List Dataset) : Prop :=
  datasets.length = inputs.length ∧ ∀ i input, inputs[i]? = some input →
    ∃ key, keyOf? keys i input = some key ∧
      datasets[i]? = some ⟨input.dataPath, input.schema, key, none⟩

/-- The job that a task stands for. -/
structure Describes (task : TaskFile) (job : Job) : Prop where
  output : task.outputs = [job.output]
  datasets : Pairs task.inputs (task.keys.getD []) job.datasets

variable {inputs : List TaskInput} {keys : List (List String)} {datasets : List Dataset}

theorem keyOf?_succ (keys : List (List String)) (i : Nat) (input : TaskInput) :
    keyOf? keys (i + 1) input = keyOf? keys.tail i input := by
  rw [keyOf?, keyOf?, List.getElem?_tail]

theorem pairs_nil : Pairs [] keys datasets ↔ datasets = [] := by
  unfold Pairs
  rw [List.length_nil, List.length_eq_zero_iff]
  refine ⟨fun h => h.1, fun h => ⟨h, fun i input hi => ?_⟩⟩
  rw [List.getElem?_nil] at hi
  cases hi

theorem pairs_cons {input : TaskInput} : Pairs (input :: inputs) keys datasets ↔
    ∃ key rest, keyOf? keys 0 input = some key ∧ Pairs inputs keys.tail rest ∧
      datasets = ⟨input.dataPath, input.schema, key, none⟩ :: rest := by
  constructor
  · rintro ⟨hlength, hall⟩
    obtain ⟨key, hkey, hfirst⟩ := hall 0 input rfl
    obtain ⟨d, rest, rfl⟩ : ∃ d rest, datasets = d :: rest := by
      refine List.exists_cons_of_ne_nil fun hnil => ?_
      rw [hnil] at hfirst
      cases hfirst
    cases hfirst
    refine ⟨key, rest, hkey, ⟨Nat.succ.inj hlength, fun i other hi => ?_⟩, rfl⟩
    rw [← keyOf?_succ]
    exact hall (i + 1) other hi
  · rintro ⟨key, rest, hkey, ⟨hlength, hall⟩, rfl⟩
    refine ⟨congrArg Nat.succ hlength, fun i other hi => ?_⟩
    cases i with
    | zero =>
      cases hi
      exact ⟨key, hkey, rfl⟩
    | succ i =>
      rw [keyOf?_succ]
      exact hall i other hi

theorem datasetsFrom_cons (i : Nat) (input : TaskInput) (inputs : List TaskInput)
    (keys : List (List String)) : datasetsFrom i (input :: inputs) keys =
      match keyOf? keys 0 input with
      | none => .error (.noKey i)
      | some key => (datasetsFrom (i + 1) inputs keys.tail).map
          (⟨input.dataPath, input.schema, key, none⟩ :: ·) := by
  have hkey : (input.key <|> keys.head?) = keyOf? keys 0 input := by
    rw [keyOf?, List.head?_eq_getElem?, Option.orElse_eq_orElse, Option.orElse_eq_or]
  cases hfound : keyOf? keys 0 input with
  | none => simp only [datasetsFrom, hkey, hfound]
  | some key => simp only [datasetsFrom, hkey, hfound]

/-- Each input is paired with its key, whichever of the others have keys of their own. -/
theorem datasetsFrom_eq_ok {i : Nat} :
    datasetsFrom i inputs keys = .ok datasets ↔ Pairs inputs keys datasets := by
  induction inputs generalizing i keys datasets with
  | nil =>
    rw [datasetsFrom, pairs_nil, Except.ok.injEq, eq_comm]
  | cons input inputs ih =>
    rw [datasetsFrom_cons, pairs_cons]
    cases hkey : keyOf? keys 0 input with
    | none => simp
    | some key =>
      dsimp only
      rw [map_eq_ok]
      constructor
      · rintro ⟨rest, hrest, rfl⟩
        exact ⟨key, rest, rfl, ih.1 hrest, rfl⟩
      · rintro ⟨_, rest, hsame, hrest, rfl⟩
        cases hsame
        exact ⟨rest, ih.2 hrest, rfl⟩

/-- Only the keys of inputs without keys of their own are looked at. -/
theorem datasetsFrom_congr {keys' : List (List String)} (h : ∀ (i : Nat) (input : TaskInput),
    inputs[i]? = some input → input.key = none → keys[i]? = keys'[i]?) (i : Nat) :
    datasetsFrom i inputs keys = datasetsFrom i inputs keys' := by
  induction inputs generalizing i keys keys' with
  | nil => rfl
  | cons input inputs ih =>
    have hkey : keyOf? keys 0 input = keyOf? keys' 0 input := by
      unfold keyOf?
      cases hown : input.key with
      | some key => rfl
      | none => rw [h 0 input rfl hown]
    have hrest : datasetsFrom (i + 1) inputs keys.tail =
        datasetsFrom (i + 1) inputs keys'.tail := by
      refine ih (fun j other hj hown => ?_) (i + 1)
      rw [List.getElem?_tail, List.getElem?_tail]
      exact h (j + 1) other hj hown
    rw [datasetsFrom_cons, datasetsFrom_cons, hkey, hrest]

variable {task : TaskFile} {job : Job}

/-- The task names no component, or the one for which it is meant. -/
def NamesComponent (task : TaskFile) : Prop :=
  ∀ name, task.componentName = some name → name = component

/-- The job of a task that names no other component. -/
theorem toUncheckedJob_of_names (h : task.NamesComponent) : task.toUncheckedJob =
    match task.outputs with
    | [output] => (datasetsFrom 0 task.inputs (task.keys.getD [])).map (⟨·, output⟩)
    | _ => .error .outputCount := by
  unfold toUncheckedJob
  cases hname : task.componentName with
  | none => rfl
  | some name =>
    obtain rfl := h name hname
    rfl

theorem namesComponent_of_ok (h : task.toUncheckedJob = .ok job) : task.NamesComponent := by
  intro name hname
  by_contra hother
  unfold toUncheckedJob at h
  rw [hname] at h
  simp [hother, throw, throwThe, MonadExceptOf.throw] at h

theorem toUncheckedJob_eq_ok :
    task.toUncheckedJob = .ok job ↔ task.NamesComponent ∧ task.Describes job := by
  refine ⟨fun h => ?_, fun ⟨hname, houtput, hdatasets⟩ => ?_⟩
  · have hname := namesComponent_of_ok h
    rw [toUncheckedJob_of_names hname] at h
    split at h
    · rename_i output houtput
      obtain ⟨datasets, hdatasets, rfl⟩ := map_eq_ok.1 h
      exact ⟨hname, houtput, datasetsFrom_eq_ok.1 hdatasets⟩
    · cases h
  · rw [toUncheckedJob_of_names hname, houtput]
    dsimp only
    rw [datasetsFrom_eq_ok.2 hdatasets]
    rfl

/-- A task becomes the job that it stands for, if this is valid. -/
theorem toJob_eq_ok :
    task.toJob = .ok job ↔ task.NamesComponent ∧ task.Describes job ∧ job.Valid := by
  unfold toJob
  simp only [bind_eq_ok, mapError_eq_ok, toUncheckedJob_eq_ok, Except.ok.injEq]
  constructor
  · rintro ⟨job', ⟨hname, hjob⟩, ⟨⟩, hcheck, rfl⟩
    exact ⟨hname, hjob, Job.check_eq_ok.1 hcheck⟩
  · rintro ⟨hname, hjob, hvalid⟩
    exact ⟨job, ⟨hname, hjob⟩, (), Job.check_eq_ok.2 hvalid, rfl⟩

/-- A task becomes a job if and only if it names no other component, has one output and a key for
every input, and stands for a valid job; it becomes the job that it stands for. Keys in the list for
all inputs make no difference where an input has a key of its own, or where there is no input. -/
theorem toJob_accepts (task : TaskFile) :
    ((∃ job, task.toJob = .ok job) ↔
      (∀ name, task.componentName = some name → name = "psi") ∧
      (∃ output, task.outputs = [output]) ∧
      (∀ (i : Nat) (input : TaskInput), task.inputs[i]? = some input →
        input.key.isSome ∨ ∃ key, (task.keys.getD [])[i]? = some key) ∧
      ∃ job, task.Describes job ∧ job.Valid) ∧
    (∀ job, task.toJob = .ok job → task.Describes job ∧ job.Valid) ∧
    ∀ keys, (∀ (i : Nat) (input : TaskInput), task.inputs[i]? = some input → input.key = none →
      keys[i]? = (task.keys.getD [])[i]?) → { task with keys := some keys }.toJob = task.toJob := by
  refine ⟨⟨?_, ?_⟩, fun job hjob => (toJob_eq_ok.1 hjob).2, fun keys hkeys => ?_⟩
  · rintro ⟨job, hjob⟩
    obtain ⟨hname, hdescribes, hvalid⟩ := toJob_eq_ok.1 hjob
    refine ⟨hname, ⟨job.output, hdescribes.output⟩, fun i input hi => ?_, job, hdescribes, hvalid⟩
    obtain ⟨key, hkey, -⟩ := hdescribes.datasets.2 i input hi
    rcases Option.or_eq_some_iff.1 hkey with hown | ⟨-, hlisted⟩
    · exact .inl (Option.isSome_iff_exists.2 ⟨key, hown⟩)
    · exact .inr ⟨key, hlisted⟩
  · rintro ⟨hname, -, -, job, hdescribes, hvalid⟩
    exact ⟨job, toJob_eq_ok.2 ⟨hname, hdescribes, hvalid⟩⟩
  · have hunchecked : { task with keys := some keys }.toUncheckedJob = task.toUncheckedJob := by
      unfold toUncheckedJob
      rw [← datasetsFrom_congr hkeys 0]
      rfl
    unfold toJob
    rw [hunchecked]

end TaskFile

end Equijoin
