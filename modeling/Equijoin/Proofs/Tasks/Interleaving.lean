import Equijoin.Proofs.Tasks.Permits

/-! # Tasks side by side

Tasks that stand apart do the same under every schedule as each of them does alone, as long as none
fails; and if one fails, the cause is what one of them comes to alone.

* `Footing.Apart`: no task of a family changes what another one can tell apart.
* `Pool.Tracks`: the invariant of all reachable pools. Every member is on the way that it takes
  alone, or has found the flag raised; and the flag is raised only after a task has failed with a
  fault that is no cancellation.
* `Pool.Tracks.run`: the invariant holds after every schedule.
* `fanOut_ensures`: what tasks come to side by side.
-/

set_option autoImplicit false

namespace Equijoin

variable {σ α : Type}

/-- No task of a family changes what another one can tell apart. -/
def Footing.Apart (F : Nat → Footing σ) : Prop :=
  ∀ i j, i ≠ j → ∀ s a a', (F i).moves a a' → (F j).agrees s a → (F j).agrees s a'

namespace Pool

/-! ## Steps -/

theorem run_append (p : Pool σ α) (first second : Schedule) :
    p.run (first ++ second) = (p.run first).run second := by
  induction first generalizing p with
  | nil => rfl
  | cons i rest ih => exact ih _

theorem settle_eq_run (p : Pool σ α) (i : Nat) :
    ∃ n, p.settle i = p.run (List.replicate n i) := by
  cases hm : p.members[i]? with
  | none => exact ⟨0, by simp only [settle, hm, List.replicate_zero, run]⟩
  | some m =>
    cases m with
    | ended r => exact ⟨0, by simp only [settle, hm, List.replicate_zero, run]⟩
    | running t =>
      have hi : i < p.members.length := (List.getElem?_eq_some_iff.1 hm).1
      -- every step of the task is a step of the pool that leaves the rest of the task to settle
      induction t generalizing p with
      | done r =>
        exact ⟨1, by simp only [settle, hm, Task.finish, List.replicate_one, run, step?,
          Option.getD_some]⟩
      | look next ih =>
        obtain ⟨n, hn⟩ := ih p.raised
          ⟨p.members.set i (.running (next p.raised)), p.raised, p.state⟩ (by simp [hi]) (by simpa)
        refine ⟨n + 1, ?_⟩
        rw [List.replicate_succ, run, step?, hm, Option.getD_some, ← hn]
        simp only [settle, hm, Task.finish, List.getElem?_set_self hi, List.set_set]
      | step change next ih =>
        cases hs : change p.state with
        | some s =>
          obtain ⟨n, hn⟩ := ih p.state
            ⟨p.members.set i (.running (next p.state)), p.raised, s⟩ (by simp [hi]) (by simpa)
          refine ⟨n + 1, ?_⟩
          rw [List.replicate_succ, run, step?, hm]
          simp only [hs, Option.map_some, Option.getD_some, ← hn]
          simp only [settle, hm, Task.finish, hs, List.getElem?_set_self hi, List.set_set]
        | none =>
          refine ⟨0, ?_⟩
          have hself : p.members.set i (.running (.step change next)) = p.members := by
            refine List.ext_getElem? fun j => ?_
            rw [List.getElem?_set]
            split
            · rename_i hij
              subst hij
              rw [hm]
            · rfl
          simp only [settle, hm, Task.finish, hs, hself, List.replicate_zero, run]

theorem settles_eq_run (p : Pool σ α) (is : List Nat) :
    ∃ schedule, is.foldl settle p = p.run schedule := by
  induction is generalizing p with
  | nil => exact ⟨[], rfl⟩
  | cons i is ih =>
    obtain ⟨n, hn⟩ := p.settle_eq_run i
    obtain ⟨schedule, hrest⟩ := ih (p.settle i)
    exact ⟨List.replicate n i ++ schedule, by rw [List.foldl_cons, hrest, run_append, hn]⟩

theorem finish_eq_run (p : Pool σ α) : ∃ schedule, p.finish = p.run schedule := by
  obtain ⟨first, hfirst⟩ := p.settles_eq_run (List.range p.members.length)
  obtain ⟨second, hsecond⟩ := p.sweep.settles_eq_run (List.range p.sweep.members.length)
  refine ⟨first ++ second, ?_⟩
  rw [run_append, ← hfirst]
  exact hsecond

/-! ## Members on course -/

/-- A member is on the way that its task takes alone, or it has found the flag raised. -/
def OnCourse (F : Footing σ) (post : Outcome α → σ → Prop) (raised : Bool) (state : σ) :
    Member σ α → Prop
  | .running task =>
    (∃ s, F.agrees s state ∧ F.Ensures task s post) ∨
      (raised = true ∧ F.Always task (· = .error .cancelled))
  | .ended r =>
    (r ≠ .error .cancelled ∧ ∃ s, F.agrees s state ∧ post r s) ∨
      (raised = true ∧ r = .error .cancelled)

theorem OnCourse.mono {F : Footing σ} {post : Outcome α → σ → Prop} {raised raised' : Bool}
    {state state' : σ} {m : Member σ α} (h : OnCourse F post raised state m)
    (hraised : raised = true → raised' = true)
    (hstate : ∀ s, F.agrees s state → F.agrees s state') : OnCourse F post raised' state' m := by
  cases m with
  | running task =>
    rcases h with ⟨s, hs, hens⟩ | ⟨hr, halways⟩
    · exact .inl ⟨s, hstate s hs, hens⟩
    · exact .inr ⟨hraised hr, halways⟩
  | ended r =>
    rcases h with ⟨hr, s, hs, hpost⟩ | ⟨hr, hcancelled⟩
    · exact .inl ⟨hr, s, hstate s hs, hpost⟩
    · exact .inr ⟨hraised hr, hcancelled⟩

/-- The invariant of the pools that tasks reach side by side. Footings of numbers past those of the
tasks see what no task changes. -/
structure Tracks (F : Nat → Footing σ) (post : Nat → Outcome α → σ → Prop) (origin : σ)
    (count : Nat) (p : Pool σ α) : Prop where
  length : p.members.length = count
  course : ∀ (i : Nat) (m : Member σ α), p.members[i]? = some m →
    OnCourse (F i) (post i) p.raised p.state m
  others : ∀ i, count ≤ i → (F i).agrees origin p.state
  observed : ∀ (i : Nat) (fault : Fault), p.members[i]? = some (.ended (.error fault)) →
    p.raised = true
  cause : p.raised = true →
    ∃ (i : Nat) (fault : Fault), p.members[i]? = some (.ended (.error fault)) ∧ fault ≠ .cancelled

variable {F : Nat → Footing σ} {post : Nat → Outcome α → σ → Prop} {origin : σ} {count : Nat}
  {p : Pool σ α}

theorem tracks_start {tasks : List (Task σ α)} {s : σ} (hagree : ∀ i, (F i).agrees origin s)
    (h : ∀ i t, tasks[i]? = some t → (F i).Ensures t origin (post i)) :
    Tracks F post origin tasks.length (start tasks s) where
  length := by simp [start]
  course i m hm := by
    simp only [start, List.getElem?_map, Option.map_eq_some_iff] at hm
    obtain ⟨t, ht, rfl⟩ := hm
    exact .inl ⟨origin, hagree i, h i t ht⟩
  others i _ := hagree i
  observed i fault hm := by
    simp only [start, List.getElem?_map, Option.map_eq_some_iff] at hm
    obtain ⟨t, -, ht⟩ := hm
    cases ht
  cause h := nomatch h

/-- A step changes one member. The others stay on course if the step keeps to the footing of that
member. -/
theorem Tracks.set (h : Tracks F post origin count p) (hF : Footing.Apart F) {i : Nat}
    {m old : Member σ α} {state : σ} {raised : Bool} (hold : p.members[i]? = some old)
    (hnew : ∀ r, old ≠ .ended r)
    (hm : OnCourse (F i) (post i) raised state m)
    (hraised : p.raised = true → raised = true)
    (hstate : state = p.state ∨ (F i).moves p.state state)
    (hobserved : ∀ fault, m = .ended (.error fault) → raised = true)
    (hcause : raised = true → p.raised = true ∨
      ∃ fault, m = .ended (.error fault) ∧ fault ≠ .cancelled) :
    Tracks F post origin count ⟨p.members.set i m, raised, state⟩ := by
  have hi : i < p.members.length := (List.getElem?_eq_some_iff.1 hold).1
  have hkeep : ∀ j, j ≠ i → ∀ s, (F j).agrees s p.state → (F j).agrees s state := by
    intro j hj s hs
    rcases hstate with rfl | hmove
    · exact hs
    · exact hF i j (Ne.symm hj) s _ _ hmove hs
  refine ⟨by simpa using h.length, fun j m' hj => ?_, fun j hj => ?_, fun j fault hj => ?_,
    fun hr => ?_⟩
  · simp only [List.getElem?_set] at hj
    split at hj
    · rename_i hij
      subst hij
      obtain rfl : m = m' := by simpa [hi] using hj
      exact hm
    · rename_i hij
      exact (h.course j m' hj).mono hraised (hkeep j (Ne.symm hij))
  · have hji : j ≠ i := by
      have := h.length
      omega
    exact hkeep j hji origin (h.others j hj)
  · simp only [List.getElem?_set] at hj
    split at hj
    · rename_i hij
      subst hij
      exact hobserved fault (by simpa [hi] using hj)
    · exact hraised (h.observed j fault hj)
  · rcases hcause hr with hp | ⟨fault, rfl, hfault⟩
    · obtain ⟨j, fault, hj, hfault⟩ := h.cause hp
      have hij : i ≠ j := by
        rintro rfl
        rw [hold] at hj
        exact hnew _ (Option.some.inj hj)
      exact ⟨j, fault, by simpa [List.getElem?_set, hij] using hj, hfault⟩
    · exact ⟨i, fault, by simp [hi], hfault⟩

/-- One step of one task keeps the invariant. -/
theorem Tracks.step {p' : Pool σ α} {i : Nat} (h : Tracks F post origin count p)
    (hF : Footing.Apart F) (hstep : p.step? i = some p') : Tracks F post origin count p' := by
  rcases step?_cases hstep with ⟨r, hm, rfl⟩ | ⟨next, hm, rfl⟩ | ⟨change, next, s, hm, hs, rfl⟩
  · -- a result is observed; a fault raises the flag, and is the cause unless it is a cancellation
    refine h.set hF hm (fun _ => by simp) ?_ (by simp +contextual) (.inl rfl)
      (fun fault hf => ?_) (fun hr => ?_)
    · rcases h.course i _ hm with ⟨s, hs, hr, hpost⟩ | ⟨hr, hcancelled⟩
      · exact .inl ⟨hr, s, hs, hpost⟩
      · exact .inr ⟨by simp [hr], hcancelled⟩
    · cases hf
      simp [failed]
    · cases hp : p.raised with
      | true => exact .inl rfl
      | false =>
        rcases h.course i _ hm with ⟨s, hs, hne, hpost⟩ | ⟨hr', hcancelled⟩
        · cases r with
          | ok a => simp [hp, failed] at hr
          | error fault => exact .inr ⟨fault, rfl, fun hf => hne (by rw [hf])⟩
        · rw [hp] at hr'
          cases hr'
  · -- the flag is looked at
    refine h.set hF hm (fun _ => by simp) ?_ id (.inl rfl) (fun _ hf => by cases hf) .inl
    rcases h.course i _ hm with ⟨s, hs, hlook⟩ | ⟨hr, halways⟩
    · cases hp : p.raised with
      | true => exact .inr ⟨rfl, hlook.1⟩
      | false => exact .inl ⟨s, hs, hlook.2⟩
    · exact .inr ⟨hr, halways p.raised⟩
  · -- the state changes as the footing of the task allows
    rcases h.course i _ hm with ⟨u, hu, u', hu', hnext, hagree⟩ | ⟨hr, halways⟩
    · obtain ⟨heq, hagree', hmove⟩ := hagree p.state s hu hs
      refine h.set hF hm (fun _ => by simp) ?_ id (.inr hmove) (fun _ hf => by cases hf) .inl
      exact .inl ⟨u', hagree', by rw [heq]; exact hnext⟩
    · obtain ⟨hmove, hrest⟩ := halways p.state
      refine h.set hF hm (fun _ => by simp) ?_ id (.inr (hmove s hs)) (fun _ hf => by cases hf)
        .inl
      exact .inr ⟨hr, hrest⟩

/-- The steps of a schedule keep the invariant. -/
theorem Tracks.run (h : Tracks F post origin count p) (hF : Footing.Apart F)
    (schedule : Schedule) : Tracks F post origin count (p.run schedule) := by
  induction schedule generalizing p with
  | nil => exact h
  | cons i rest ih =>
    refine ih (p := (p.step? i).getD p) ?_
    cases hstep : p.step? i with
    | some p' => exact h.step hF hstep
    | none => exact h

/-! ## What tasks come to side by side -/

theorem members_of_ended (h : ∀ i, i < p.members.length → ∃ r, p.members[i]? = some (.ended r)) :
    p.members = p.results.map .ended := by
  have hall : ∀ ms : List (Member σ α),
      (∀ i, i < ms.length → ∃ r, ms[i]? = some (.ended r)) →
        ms = (ms.filterMap Member.result?).map .ended := by
    intro ms
    induction ms with
    | nil => exact fun _ => rfl
    | cons m ms ih =>
      intro hms
      obtain ⟨r, hr⟩ := hms 0 (by simp)
      obtain rfl : m = .ended r := by simpa using hr
      have hrest := ih fun i hi => by simpa using hms (i + 1) (by simpa using hi)
      rw [List.filterMap_cons_some (show Member.result? (.ended r) = some r from rfl),
        List.map_cons, ← hrest]
  exact hall p.members h

end Pool

/-! ## Results -/

theorem collect_ok {results : List (Outcome α)} (h : ∀ r ∈ results, ∃ a, r = .ok a) :
    ∃ values, results = values.map .ok ∧ collect results = .ok values := by
  have hcause : rootCause? results = none := by
    refine List.findSome?_eq_none_iff.2 fun r hr => ?_
    obtain ⟨a, rfl⟩ := h r hr
    rfl
  have hvalues : ∃ values, results = values.map .ok ∧ results.mapM id = .ok values := by
    clear hcause
    induction results with
    | nil => exact ⟨[], rfl, rfl⟩
    | cons r rest ih =>
      obtain ⟨a, rfl⟩ := h r (by simp)
      obtain ⟨values, hrest, hmap⟩ := ih fun r hr => h r (by simp [hr])
      refine ⟨a :: values, by rw [List.map_cons, ← hrest], ?_⟩
      rw [List.mapM_cons, hmap]
      rfl
  obtain ⟨values, hmap, hok⟩ := hvalues
  exact ⟨values, hmap, by simp only [collect, hcause, hok]⟩

theorem collect_error {results : List (Outcome α)} {fault : Fault}
    (h : .error fault ∈ results) (hfault : fault ≠ .cancelled) :
    ∃ cause, .error cause ∈ results ∧ cause ≠ .cancelled ∧ collect results = .error cause := by
  cases hcause : rootCause? results with
  | none =>
    have hnone := List.findSome?_eq_none_iff.1 hcause _ h
    cases fault <;> simp at hnone hfault
  | some cause =>
    obtain ⟨r, hr, hsome⟩ := List.exists_of_findSome?_eq_some hcause
    refine ⟨cause, ?_, ?_, by simp only [collect, hcause]⟩
    · split at hsome
      · cases hsome
      · cases hsome
      · cases hsome
        exact hr
    · split at hsome
      · cases hsome
      · cases hsome
      · rename_i hne
        cases hsome
        exact fun hc => hne (by rw [hc])

section Collected

variable {F : Nat → Footing σ} {post : Nat → Outcome α → σ → Prop} {origin : σ} {count : Nat}
  {p : Pool σ α}

theorem Pool.getElem?_results
    (hended : ∀ i, i < p.members.length → ∃ r, p.members[i]? = some (.ended r)) (i : Nat)
    (r : Outcome α) : p.results[i]? = some r ↔ p.members[i]? = some (.ended r) := by
  have hi : p.members[i]? = (p.results[i]?).map .ended := by
    conv => lhs; rw [Pool.members_of_ended hended, List.getElem?_map]
  rw [hi]
  cases p.results[i]? <;> simp

theorem Pool.Tracks.length_results (h : p.Tracks F post origin count)
    (hended : ∀ i, i < p.members.length → ∃ r, p.members[i]? = some (.ended r)) :
    p.results.length = count := by
  rw [← h.length]
  conv => rhs; rw [Pool.members_of_ended hended]
  simp

/-- If no fault has been observed, every member has come to a result. -/
theorem Pool.Tracks.collect_calm (h : p.Tracks F post origin count)
    (hended : ∀ i, i < p.members.length → ∃ r, p.members[i]? = some (.ended r))
    (hraised : p.raised = false) :
    ∃ values, collect p.results = .ok values ∧ values.length = count ∧
      ∀ i v, values[i]? = some v → ∃ u, (F i).agrees u p.state ∧ post i (.ok v) u := by
  have hresult := Pool.getElem?_results hended
  have hall : ∀ r ∈ p.results, ∃ a, r = .ok a := by
    intro r hr
    obtain ⟨i, hi⟩ := List.mem_iff_getElem?.1 hr
    cases r with
    | ok a => exact ⟨a, rfl⟩
    | error fault =>
      have := h.observed i fault ((hresult i _).1 hi)
      rw [hraised] at this
      cases this
  obtain ⟨values, hvalues, hcollect⟩ := collect_ok hall
  refine ⟨values, hcollect, ?_, fun i v hv => ?_⟩
  · rw [← h.length_results hended, hvalues, List.length_map]
  · have hm := (hresult i (.ok v)).1 (by rw [hvalues, List.getElem?_map, hv, Option.map_some])
    rcases h.course i _ hm with ⟨-, u, hu, hpost⟩ | ⟨-, hcancelled⟩
    · exact ⟨u, hu, hpost⟩
    · cases hcancelled

/-- If a fault has been observed, the cause is no cancellation, so its task has come to it alone. -/
theorem Pool.Tracks.collect_raised (h : p.Tracks F post origin count)
    (hended : ∀ i, i < p.members.length → ∃ r, p.members[i]? = some (.ended r))
    (hraised : p.raised = true) :
    ∃ i fault u, i < count ∧ collect p.results = .error fault ∧ fault ≠ .cancelled ∧
      (F i).agrees u p.state ∧ post i (.error fault) u := by
  have hresult := Pool.getElem?_results hended
  obtain ⟨i, fault, hi, hfault⟩ := h.cause hraised
  obtain ⟨cause, hmem, hcause, hcollect⟩ :=
    collect_error (List.mem_of_getElem? ((hresult i _).2 hi)) hfault
  obtain ⟨j, hj⟩ := List.mem_iff_getElem?.1 hmem
  have hlt : j < count := by
    rw [← h.length_results hended]
    exact (List.getElem?_eq_some_iff.1 hj).1
  rcases h.course j _ ((hresult j _).1 hj) with ⟨-, u, hu, hpost⟩ | ⟨-, hcancelled⟩
  · exact ⟨j, cause, u, hlt, hcollect, hcause, hu, hpost⟩
  · exact absurd (Except.error.inj hcancelled) hcause

end Collected

/-- What tasks come to side by side: all results, or a fault that one of them comes to alone. What
no task changes is as before. -/
theorem fanOut_ensures {F : Nat → Footing σ} {post : Nat → Outcome α → σ → Prop}
    {free : σ → Nat} {tasks : List (Task σ α)} {origin s : σ} (schedule : Schedule)
    (hF : Footing.Apart F) (hagree : ∀ i, (F i).agrees origin s)
    (hens : ∀ i t, tasks[i]? = some t → (F i).Ensures t origin (post i))
    (hfree : 0 < free s) (hbalanced : ∀ t ∈ tasks, t.Balanced free 0) :
    (∀ i, tasks.length ≤ i → (F i).agrees origin (fanOut schedule tasks s).2) ∧
    ((∃ values, (fanOut schedule tasks s).1 = .ok values ∧ values.length = tasks.length ∧
        ∀ i v, values[i]? = some v →
          ∃ u, (F i).agrees u (fanOut schedule tasks s).2 ∧ post i (.ok v) u) ∨
      ∃ i fault u, i < tasks.length ∧ (fanOut schedule tasks s).1 = .error fault ∧
        fault ≠ .cancelled ∧ (F i).agrees u (fanOut schedule tasks s).2 ∧
          post i (.error fault) u) := by
  obtain ⟨rest, hrest⟩ := ((Pool.start tasks s).run schedule).finish_eq_run
  have hpool : fanOut schedule tasks s =
      (collect (((Pool.start tasks s).run (schedule ++ rest)).results),
        ((Pool.start tasks s).run (schedule ++ rest)).state) := by
    simp only [fanOut, hrest, Pool.run_append]
  have htracks := (Pool.tracks_start (s := s) hagree hens).run hF (schedule ++ rest)
  obtain ⟨held, haccounts⟩ := (Pool.accounts_start (s := s) hbalanced).run schedule
  have hended := haccounts.ended_finish hfree
  rw [← Pool.length_finish, hrest, ← Pool.run_append] at hended
  rw [hpool]
  generalize (Pool.start tasks s).run (schedule ++ rest) = p at htracks hended
  refine ⟨htracks.others, ?_⟩
  cases hraised : p.raised with
  | false => exact .inl (htracks.collect_calm hended hraised)
  | true => exact .inr (htracks.collect_raised hended hraised)

end Equijoin
