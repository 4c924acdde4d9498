import Equijoin.Proofs.Stages.Regions

/-! # The tasks of a stage

* `Orderly`: tasks that own different files, each with what it comes to from a session.
* `fanOut_orderly`: what such tasks come to under a schedule.
* `fanOut_cases`: whether the stage succeeds is what the tasks come to alone.
* `Paired`: two lists of tasks that come to the same alone.
* `fanOut_alike`: if all of them succeed alone, schedules make no difference.
* `Orderly.cause`: the flag is raised only after one of them has failed, and not for having found
  it raised.
-/

set_option autoImplicit false

namespace Equijoin

open FileTree

variable {α : Type}

/-- Tasks that own different files and share permits, and what each of them ensures in a session. -/
structure Orderly (owns : Nat → Location → Prop) (free : Session → Nat)
    (tasks : List (Task Session α)) (origin : Session)
    (post : Nat → Outcome α → Session → Prop) : Prop where
  unique : ∀ l i j, owns i l → owns j l → i = j
  ensures : ∀ i t, tasks[i]? = some t → (Region owns i).onFiles.Ensures t origin (post i)
  balanced : ∀ t ∈ tasks, t.Balanced free 0

variable {owns : Nat → Location → Prop} {free : Session → Nat} {tasks : List (Task Session α)}
  {origin s s' : Session} {post : Nat → Outcome α → Session → Prop}

theorem exists_unowned (hunique : ∀ l i j, owns i l → owns j l → i = j) (l : Location) :
    ∃ i, Unowned owns i l := by
  by_cases h : ∃ i, owns i l
  · obtain ⟨i, hi⟩ := h
    exact ⟨i, fun j hj hown => hj (hunique l j i hown hi)⟩
  · exact ⟨0, fun j _ hown => h ⟨j, hown⟩⟩

/-- What the tasks of a stage come to. -/
theorem fanOut_orderly (h : Orderly owns free tasks origin post) (hs : Same origin.files s.files)
    (hfree : 0 < free s) (schedule : Schedule) :
    (∀ i, tasks.length ≤ i →
      AgreeOn (Unowned owns i) origin.files (fanOut schedule tasks s).2.files) ∧
    ((∃ values, (fanOut schedule tasks s).1 = .ok values ∧ values.length = tasks.length ∧
        ∀ i v, values[i]? = some v → ∃ t u, tasks[i]? = some t ∧
          t.alone false origin = some (.ok v, u) ∧ post i (.ok v) u ∧
          AgreeOn (Unowned owns i) u.files (fanOut schedule tasks s).2.files) ∨
      ∃ i t fault u, tasks[i]? = some t ∧ (fanOut schedule tasks s).1 = .error fault ∧
        fault ≠ .cancelled ∧ t.alone false origin = some (.error fault, u) ∧
          post i (.error fault) u) := by
  have hens : ∀ i t, tasks[i]? = some t → (Region owns i).onFiles.Ensures t origin
      fun r v => ∃ t', tasks[i]? = some t' ∧ t'.alone false origin = some (r, v) ∧ post i r v :=
    fun i t ht => (h.ensures i t ht).and_alone.mono fun r v hv => ⟨t, ht, hv⟩
  obtain ⟨hothers, hresult⟩ := fanOut_ensures schedule (region_apart owns)
    (region_agrees hs) hens hfree h.balanced
  refine ⟨hothers, ?_⟩
  rcases hresult with ⟨values, hok, hlength, hvalues⟩ |
    ⟨i, fault, u, -, herror, hne, -, t, ht, hpost⟩
  · refine .inl ⟨values, hok, hlength, fun i v hv => ?_⟩
    obtain ⟨u, hu, t, ht, halone, hpost⟩ := hvalues i v hv
    exact ⟨t, u, ht, halone, hpost, hu⟩
  · exact .inr ⟨i, t, fault, u, ht, herror, hne, hpost⟩

theorem fanOut_keeps (h : Orderly owns free tasks origin post) (hs : Same origin.files s.files)
    (hfree : 0 < free s) (schedule : Schedule) :
    AgreeOn (fun l => ∀ i, ¬ owns i l) origin.files (fanOut schedule tasks s).2.files :=
  ((fanOut_orderly h hs hfree schedule).1 tasks.length le_rfl).mono fun _ hl j _ => hl j

/-- The tasks all succeed, each run alone from the session. -/
def AllSucceed (tasks : List (Task Session α)) (origin : Session) : Prop :=
  ∀ t ∈ tasks, ∃ a u, t.alone false origin = some (.ok a, u)

/-- Either all tasks succeed alone, or one of them fails alone as the stage does. -/
theorem fanOut_cases (h : Orderly owns free tasks origin post) (hs : Same origin.files s.files)
    (hfree : 0 < free s) (schedule : Schedule) :
    (AllSucceed tasks origin ∧ ∃ values, (fanOut schedule tasks s).1 = .ok values) ∨
      ∃ t ∈ tasks, ∃ fault u, (fanOut schedule tasks s).1 = .error fault ∧ fault ≠ .cancelled ∧
        t.alone false origin = some (.error fault, u) := by
  rcases (fanOut_orderly h hs hfree schedule).2 with ⟨values, hok, hlength, hvalues⟩ |
    ⟨i, t, fault, u, ht, herror, hne, halone, -⟩
  · refine .inl ⟨fun t ht => ?_, values, hok⟩
    obtain ⟨i, hi⟩ := List.mem_iff_getElem?.1 ht
    have hlt : i < values.length := by
      rw [hlength]
      exact (List.getElem?_eq_some_iff.1 hi).1
    obtain ⟨t', u, ht', halone, -⟩ := hvalues i _ (List.getElem?_eq_getElem hlt)
    cases hi.symm.trans ht'
    exact ⟨_, u, halone⟩
  · exact .inr ⟨t, List.mem_of_getElem? ht, fault, u, herror, hne, halone⟩

theorem allSucceed_of_ok (h : Orderly owns free tasks origin post) (hfree : 0 < free origin)
    {schedule : Schedule} {values : List α} {v : Session}
    (hok : fanOut schedule tasks origin = (.ok values, v)) : AllSucceed tasks origin := by
  rcases fanOut_cases h (AgreeOn.refl _ _) hfree schedule with
    ⟨hall, -⟩ | ⟨t, -, fault, u, herror, -⟩
  · exact hall
  · rw [hok] at herror
    cases herror

/-- The tasks of two lists go in pairs: where one succeeds alone, so does the other one, with the
same value and the same files as far as both see them. -/
structure Paired (owns : Nat → Location → Prop) (tasks tasks' : List (Task Session α))
    (origin : Session) : Prop where
  length : tasks'.length = tasks.length
  alone : ∀ (i : Nat) (t : Task Session α) (v : α) (u : Session), tasks[i]? = some t →
    t.alone false origin = some (.ok v, u) →
      ∃ (t' : Task Session α) (u' : Session), tasks'[i]? = some t' ∧
        t'.alone false origin = some (.ok v, u') ∧ AgreeOn (Unowned owns i) u.files u'.files

theorem Paired.refl (owns : Nat → Location → Prop) (tasks : List (Task Session α))
    (origin : Session) : Paired owns tasks tasks origin :=
  ⟨rfl, fun _ t _ u ht halone => ⟨t, u, ht, halone, AgreeOn.refl _ _⟩⟩

theorem Paired.allSucceed {tasks' : List (Task Session α)} (h : Paired owns tasks tasks' origin)
    (hall : AllSucceed tasks origin) : AllSucceed tasks' origin := by
  intro t' ht'
  obtain ⟨i, hi⟩ := List.mem_iff_getElem?.1 ht'
  have hlt : i < tasks.length := by
    rw [← h.length]
    exact (List.getElem?_eq_some_iff.1 hi).1
  obtain ⟨v, u, halone⟩ := hall _ (List.getElem_mem hlt)
  obtain ⟨t, u', ht, halone', -⟩ := h.alone i _ v u (List.getElem?_eq_getElem hlt) halone
  cases hi.symm.trans ht
  exact ⟨v, u', halone'⟩

/-- If all tasks succeed alone, a schedule leads to what each of them comes to alone. -/
theorem fanOut_succeeds (h : Orderly owns free tasks origin post) (hall : AllSucceed tasks origin)
    (hs : Same origin.files s.files) (hfree : 0 < free s) (schedule : Schedule) :
    ∃ values, (fanOut schedule tasks s).1 = .ok values ∧ values.length = tasks.length ∧
      ∀ i v, values[i]? = some v → ∃ t u, tasks[i]? = some t ∧
        t.alone false origin = some (.ok v, u) ∧ post i (.ok v) u ∧
        AgreeOn (Unowned owns i) u.files (fanOut schedule tasks s).2.files := by
  rcases (fanOut_orderly h hs hfree schedule).2 with hok | ⟨i, t, fault, u, ht, -, -, halone, -⟩
  · exact hok
  · obtain ⟨a, v, hsucceed⟩ := hall t (List.mem_of_getElem? ht)
    rw [hsucceed] at halone
    cases halone

/-- If all tasks succeed alone, every schedule leads to the same results and the same files, and so
do tasks that are paired with them. -/
theorem fanOut_alike {tasks' : List (Task Session α)} {post' : Nat → Outcome α → Session → Prop}
    (h : Orderly owns free tasks origin post) (h' : Orderly owns free tasks' origin post')
    (hpaired : Paired owns tasks tasks' origin) (hall : AllSucceed tasks origin)
    (hs : Same origin.files s.files) (hs' : Same origin.files s'.files) (hfree : 0 < free s)
    (hfree' : 0 < free s') (schedule schedule' : Schedule) :
    ∃ values, (fanOut schedule tasks s).1 = .ok values ∧
      (fanOut schedule' tasks' s').1 = .ok values ∧
      Same (fanOut schedule tasks s).2.files (fanOut schedule' tasks' s').2.files := by
  obtain ⟨values, hok, hlength, hvalues⟩ := fanOut_succeeds h hall hs hfree schedule
  obtain ⟨values', hok', hlength', hvalues'⟩ :=
    fanOut_succeeds h' (hpaired.allSucceed hall) hs' hfree' schedule'
  rw [hpaired.length] at hlength'
  have hone : ∀ i v v', values[i]? = some v → values'[i]? = some v' → v = v' ∧
      AgreeOn (Unowned owns i) (fanOut schedule tasks s).2.files
        (fanOut schedule' tasks' s').2.files := by
    intro i v v' hv hv'
    obtain ⟨t, u, ht, halone, -, hu⟩ := hvalues i v hv
    obtain ⟨t', u', ht', halone', -, hu'⟩ := hvalues' i v' hv'
    obtain ⟨t₁, u₁, ht₁, halone₁, hagree⟩ := hpaired.alone i t v u ht halone
    cases ht'.symm.trans ht₁
    cases halone'.symm.trans halone₁
    exact ⟨rfl, hu.symm.trans (hagree.trans hu')⟩
  have hsame : values = values' := by
    refine List.ext_getElem (by rw [hlength, hlength']) fun i hi hi' => ?_
    exact (hone i _ _ (List.getElem?_eq_getElem hi) (List.getElem?_eq_getElem hi')).1
  subst hsame
  refine ⟨values, hok, hok', ?_⟩
  -- a location is seen by a task, which leaves it the same, or by a number past those of the tasks
  have hview : ∀ i, AgreeOn (Unowned owns i) (fanOut schedule tasks s).2.files
      (fanOut schedule' tasks' s').2.files := by
    intro i
    by_cases hi : i < values.length
    · exact (hone i _ _ (List.getElem?_eq_getElem hi) (List.getElem?_eq_getElem hi)).2
    · have hpast : tasks.length ≤ i := by omega
      exact ((fanOut_orderly h hs hfree schedule).1 i hpast).symm.trans
        ((fanOut_orderly h' hs' hfree' schedule').1 i (hpaired.length ▸ hpast))
  refine ⟨(hview 0).1, fun l _ => ?_⟩
  obtain ⟨i, hi⟩ := exists_unowned h.unique l
  exact (hview i).2 l hi

/-- In no reachable pool is the flag raised before a task has failed with a fault of its own. -/
theorem Orderly.cause (h : Orderly owns free tasks origin post) (schedule : Schedule)
    (hraised : ((Pool.start tasks origin).run schedule).raised = true) :
    ∃ (i : Nat) (fault : Fault),
      ((Pool.start tasks origin).run schedule).members[i]? = some (.ended (.error fault)) ∧
        fault ≠ .cancelled :=
  ((Pool.tracks_start (region_refl · origin) h.ensures).run (region_apart owns) schedule).cause
    hraised

end Equijoin
