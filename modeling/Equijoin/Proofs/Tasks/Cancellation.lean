import Equijoin.Proofs.Tasks.Progress

/-! # Tasks that share a flag

The tasks of a pool look at one flag, and their failures raise it. Tasks that have a handle each on
a flag, check it and observe their results through it, do the same.

* `Flags.shared`: a handle for each task, all of them on one flag.
* `Flags.follow`: the flags while the steps of a schedule are taken.
* `Pool.Shares`: the invariant. The handles of all tasks are on one flag, which is raised if that of
  the pool is.
* `pool_shares_flag`: the flag of a pool is that of the handles, in every reachable pool.
* `lowered_of_ok`: tasks that all succeed leave the flag as they found it.
-/

set_option autoImplicit false

namespace Equijoin

variable {σ α β : Type} {f : Flags} {p : Pool σ α} {count i : Nat} {raised : Bool}

/-! ## Handles -/

namespace Flags

/-- The flag of a run, with a handle for each of some tasks and one for the run itself. -/
def shared : Nat → Flags
  | 0 => single
  | count + 1 => (shared count).share 0

/-- The handles of some tasks are on one flag, which is raised or not. -/
def Stand (f : Flags) (count : Nat) (raised : Bool) : Prop :=
  ∃ flag, f.raised[flag]? = some raised ∧ ∀ i, i < count → f.handles[i]? = some flag

theorem stand_shared (count : Nat) : (shared count).Stand count false := by
  have hshared : shared count = ⟨[false], List.replicate (count + 1) 0⟩ := by
    induction count with
    | zero => rfl
    | succ count ih =>
      have hfirst : (List.replicate (count + 1) 0)[0]? = some 0 := rfl
      simp only [shared, ih, share, hfirst, ← List.replicate_succ']
  rw [hshared]
  refine ⟨0, rfl, fun i hi => ?_⟩
  rw [List.getElem?_replicate, if_pos (by omega)]

theorem Stand.isRaised (h : f.Stand count raised) (hi : i < count) : f.isRaised i = raised := by
  obtain ⟨flag, hraised, hhandles⟩ := h
  simp [Flags.isRaised, hhandles i hi, hraised]

theorem Stand.check (h : f.Stand count raised) (hi : i < count) :
    f.check i = if raised then .error .cancelled else .ok () := by
  rw [Flags.check, h.isRaised hi]

/-- A failure that one task observes raises the flag of all. -/
theorem Stand.observe (h : f.Stand count raised) (hi : i < count) (result : Outcome α) :
    (f.observe i result).Stand count (raised || failed result) := by
  obtain ⟨flag, hraised, hhandles⟩ := h
  cases result with
  | ok a =>
    rw [failed, Bool.or_false]
    exact ⟨flag, hraised, hhandles⟩
  | error fault =>
    have hflag : flag < f.raised.length := (List.getElem?_eq_some_iff.1 hraised).1
    rw [failed, Bool.or_true, Flags.observe, raise, hhandles i hi]
    exact ⟨flag, List.getElem?_set_self hflag, hhandles⟩

/-! ## Pools -/

/-- The flags after the next step of a task, which observes its result if it has come to one. -/
def next (f : Flags) (p : Pool σ α) (i : Nat) : Flags :=
  match p.members[i]? with
  | some (.running (.done result)) => f.observe i result
  | _ => f

/-- The flags after the steps of a schedule. -/
def follow (f : Flags) (p : Pool σ α) : Schedule → Flags
  | [] => f
  | i :: schedule => (f.next p i).follow ((p.step? i).getD p) schedule

end Flags

/-- A pool of some tasks whose flag the handles of all of them stand for. -/
structure Pool.Shares (p : Pool σ α) (count : Nat) (f : Flags) : Prop where
  length : p.members.length = count
  stand : f.Stand count p.raised

theorem Pool.shares_start (tasks : List (Task σ α)) (s : σ) :
    (start tasks s).Shares tasks.length (.shared tasks.length) where
  length := by simp [start]
  stand := Flags.stand_shared _

theorem Pool.Shares.next (h : p.Shares count f) (i : Nat) :
    ((p.step? i).getD p).Shares count (f.next p i) := by
  obtain ⟨hlength, hstand⟩ := h
  cases hm : p.members[i]? with
  | none => simpa [Flags.next, step?, hm] using ⟨hlength, hstand⟩
  | some m =>
    have hi : i < count := by
      rw [← hlength]
      exact (List.getElem?_eq_some_iff.1 hm).1
    cases m with
    | ended r => exact ⟨by simpa [step?, hm], by simpa [Flags.next, step?, hm]⟩
    | running t =>
      cases t with
      | done r =>
        exact ⟨by simpa [step?, hm], by simpa [Flags.next, step?, hm] using hstand.observe hi r⟩
      | look next => exact ⟨by simpa [step?, hm], by simpa [Flags.next, step?, hm]⟩
      | step change next =>
        cases hs : change p.state <;>
          exact ⟨by simpa [step?, hm, hs], by simpa [Flags.next, step?, hm, hs]⟩

theorem Pool.Shares.follow (h : p.Shares count f) (schedule : Schedule) :
    (p.run schedule).Shares count (f.follow p schedule) := by
  induction schedule generalizing f p with
  | nil => exact h
  | cons i rest ih => exact ih (h.next i)

/-- The flag of a pool is one that its tasks share. In every pool that they reach, the handle of
each task stands as the flag of the pool does, and a task that looks at the flag goes on as a check
of its handle says. -/
theorem pool_shares_flag (tasks : List (Task σ α)) (s : σ) (schedule : Schedule) {i : Nat}
    (hi : i < tasks.length) :
    let p := (Pool.start tasks s).run schedule
    let f := (Flags.shared tasks.length).follow (Pool.start tasks s) schedule
    f.isRaised i = p.raised ∧ ∀ rest : Unit → Task σ α,
      p.members[i]? = some (.running (Task.check.bind rest)) → p.step? i = some { p with
        members := p.members.set i (.running ((Task.ofOutcome (f.check i)).bind rest)) } := by
  intro p f
  have hstand : f.Stand tasks.length p.raised := ((Pool.shares_start tasks s).follow schedule).stand
  refine ⟨hstand.isRaised hi, fun rest hm => ?_⟩
  have hstep : p.step? i = some { p with
      members := p.members.set i (.running ((Task.ofOutcome (if p.raised then
        .error .cancelled else .ok ())).bind rest)) } := by
    unfold Pool.step?
    rw [hm]
    cases p.raised <;> rfl
  rw [hstep, hstand.check hi]

/-! ## After a stage -/

/-- The flag of a pool is raised only if a failure has been observed. -/
def Pool.Blames (p : Pool σ α) : Prop :=
  p.raised = true → ∃ (i : Nat) (fault : Fault), p.members[i]? = some (.ended (.error fault))

theorem Pool.Blames.step {p' : Pool σ α} (h : p.Blames) (hstep : p.step? i = some p') :
    p'.Blames := by
  -- a task that takes a step has not come to its result before
  have hkeep : ∀ (t : Task σ α) (m : Member σ α), p.members[i]? = some (.running t) →
      p.raised = true →
      ∃ (j : Nat) (fault : Fault), (p.members.set i m)[j]? = some (.ended (.error fault)) := by
    intro t m hm hraised
    obtain ⟨j, fault, hj⟩ := h hraised
    have hij : i ≠ j := by
      rintro rfl
      cases hm.symm.trans hj
    exact ⟨j, fault, by rw [List.getElem?_set_ne hij, hj]⟩
  obtain ⟨r, hm, rfl⟩ | ⟨next, hm, rfl⟩ | ⟨change, next, s, hm, -, rfl⟩ := step?_cases hstep
  · intro hraised
    cases r with
    | ok a => exact hkeep _ _ hm (by simpa [failed] using hraised)
    | error fault =>
      have hi : i < p.members.length := (List.getElem?_eq_some_iff.1 hm).1
      exact ⟨i, fault, List.getElem?_set_self hi⟩
  · exact hkeep _ _ hm
  · exact hkeep _ _ hm

theorem Pool.Blames.run (h : p.Blames) (schedule : Schedule) : (p.run schedule).Blames := by
  induction schedule generalizing p with
  | nil => exact h
  | cons i rest ih =>
    rw [Pool.run]
    cases hstep : p.step? i with
    | none => exact ih h
    | some p' => exact ih (h.step hstep)

/-- Tasks that all succeed leave the flag down, so that it may as well be a new one for the tasks
that come next. -/
theorem lowered_of_ok {tasks : List (Task σ α)} {s : σ} {schedule : Schedule} {values : List α}
    (h : (fanOut schedule tasks s).1 = .ok values) :
    (Pool.finished schedule tasks s).raised = false := by
  have hresults : (Pool.finished schedule tasks s).results = values.map .ok := collect_eq_ok h
  obtain ⟨rest, hrest⟩ := ((Pool.start tasks s).run schedule).finish_eq_run
  have hstart : (Pool.start tasks s).Blames := nofun
  have hblames : (Pool.finished schedule tasks s).Blames := by
    rw [Pool.finished, hrest]
    exact (hstart.run schedule).run rest
  by_contra hraised
  obtain ⟨i, fault, hi⟩ := hblames (by simpa using hraised)
  have hfault : .error fault ∈ (Pool.finished schedule tasks s).results :=
    List.mem_filterMap.2 ⟨_, List.mem_of_getElem? hi, rfl⟩
  rw [hresults] at hfault
  simp at hfault

end Equijoin
