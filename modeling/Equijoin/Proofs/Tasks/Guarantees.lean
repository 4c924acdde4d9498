import Equijoin.Proofs.Tasks.Interleaving

/-! # Relations that no step leaves

A relation between states that every step of every task keeps, from all states that the relation has
reached already, holds between the first state of a pool and all that it reaches later.

* `Task.Stays`: the steps of a task stay in a relation, as long as those of the others do.
* one rule for every way in which tasks are built.
* `Pool.Stays.run`: from the tasks to every schedule.
-/

set_option autoImplicit false

namespace Equijoin

variable {σ τ α β : Type} {R : σ → σ → Prop}

/-! ## Tasks -/

namespace Task

/-- The steps of the task are in the relation, whatever state the relation leads to before each of
them. At its end the result and the state have the property. -/
def Stays (R : σ → σ → Prop) : Task σ α → σ → (Outcome α → σ → Prop) → Prop
  | done r, s, post => post r s
  | look next, s, post => ∀ raised, (next raised).Stays R s post
  | step change next, s, post =>
    ∀ u v, R s u → change u = some v → R u v ∧ (next u).Stays R v post

theorem Stays.mono {t : Task σ α} {s : σ} {post post' : Outcome α → σ → Prop}
    (h : t.Stays R s post) (hpost : ∀ r u, post r u → post' r u) : t.Stays R s post' := by
  induction t generalizing s with
  | done r => exact hpost r s h
  | look next ih => exact fun raised => ih raised (h raised)
  | step change next ih => exact fun u v hu hv => ⟨(h u v hu hv).1, ih u (h u v hu hv).2⟩

theorem Stays.bind {t : Task σ α} {f : α → Task σ β} {s : σ} {P : Outcome α → σ → Prop}
    {Q : Outcome β → σ → Prop} (h : t.Stays R s P)
    (hok : ∀ a u, P (.ok a) u → (f a).Stays R u Q)
    (herror : ∀ fault u, P (.error fault) u → Q (.error fault) u) :
    (t.bind f).Stays R s Q := by
  induction t generalizing s with
  | done r =>
    cases r with
    | ok a => exact hok a s h
    | error fault => exact herror fault s h
  | look next ih => exact fun raised => ih raised (h raised)
  | step change next ih => exact fun u v hu hv => ⟨(h u v hu hv).1, ih u (h u v hu hv).2⟩

theorem Stays.caught {t : Task σ α} {s : σ} {P : Outcome α → σ → Prop} (h : t.Stays R s P) :
    t.caught.Stays R s fun r u => ∃ r', r = .ok r' ∧ P r' u := by
  induction t generalizing s with
  | done r => exact ⟨r, rfl, h⟩
  | look next ih => exact fun raised => ih raised (h raised)
  | step change next ih => exact fun u v hu hv => ⟨(h u v hu hv).1, ih u (h u v hu hv).2⟩

theorem Stays.caught_bind {t : Task σ α} {f : Outcome α → Task σ β} {s : σ}
    {P : Outcome α → σ → Prop} {Q : Outcome β → σ → Prop} (h : t.Stays R s P)
    (hf : ∀ r u, P r u → (f r).Stays R u Q) : (t.caught.bind f).Stays R s Q := by
  refine h.caught.bind ?_ ?_
  · rintro r u ⟨r', hr, hpost⟩
    cases hr
    exact hf r u hpost
  · rintro fault u ⟨r', hr, -⟩
    cases hr

/-- Two tasks from whose results and states nothing is asked. -/
theorem Stays.seq {t : Task σ α} {f : α → Task σ β} {s : σ} (h : t.Stays R s fun _ _ => True)
    (hf : ∀ a u, (f a).Stays R u fun _ _ => True) : (t.bind f).Stays R s fun _ _ => True :=
  h.bind (fun a u _ => hf a u) fun _ _ _ => trivial

theorem stays_done_bind {r : Outcome α} {f : α → Task σ β} {s : σ} {post : Outcome β → σ → Prop}
    (hok : ∀ a, r = .ok a → (f a).Stays R s post)
    (herror : ∀ fault, r = .error fault → post (.error fault) s) :
    ((done r).bind f).Stays R s post := by
  cases r with
  | ok a => exact hok a rfl
  | error fault => exact herror fault rfl

theorem stays_check {s : σ} {post : Outcome Unit → σ → Prop} (h : ∀ r, post r s) :
    check.Stays R s post := by
  intro raised
  cases raised
  · exact h _
  · exact h _

theorem stays_act {change : σ → σ} {s : σ} {post : Outcome Unit → σ → Prop}
    (h : ∀ u, R s u → R u (change u) ∧ post (.ok ()) (change u)) :
    (act change).Stays R s post := by
  intro u v hu hv
  cases hv
  exact h u hu

theorem stays_await {change : σ → Option σ} {s : σ} {post : Outcome Unit → σ → Prop}
    (h : ∀ u v, R s u → change u = some v → R u v ∧ post (.ok ()) v) :
    (await change).Stays R s post := h

theorem stays_read {s : σ} {post : Outcome σ → σ → Prop} (hrefl : ∀ u, R u u)
    (h : ∀ u, R s u → post (.ok u) u) : read.Stays R s post := by
  intro u v hu hv
  cases hv
  exact ⟨hrefl u, h u hu⟩

theorem stays_attempt {change : σ → Outcome σ} {s : σ} {post : Outcome Unit → σ → Prop}
    (hrefl : ∀ u, R u u) (hok : ∀ u v, R s u → change u = .ok v → R u v ∧ post (.ok ()) v)
    (herror : ∀ fault u, R s u → post (.error fault) u) : (attempt change).Stays R s post := by
  intro u v hu hv
  cases hc : change u with
  | ok w =>
    simp only [hc, Option.some.injEq] at hv
    subst hv
    obtain ⟨hmove, hpost⟩ := hok u w hu hc
    refine ⟨hmove, ?_⟩
    show post ((change u).map fun _ => ()) w
    rw [hc]
    exact hpost
  | error fault =>
    simp only [hc, Option.some.injEq] at hv
    subst hv
    refine ⟨hrefl u, ?_⟩
    show post ((change u).map fun _ => ()) u
    rw [hc]
    exact herror fault u hu

/-- A task on a part of the state. -/
theorem Stays.within {get : τ → σ} {set : τ → σ → τ} {Q : τ → τ → Prop} {t : Task σ α} {s : τ}
    {post : Outcome α → τ → Prop} (hget : ∀ a b, get (set a b) = b)
    (hview : ∀ a b, Q a b → R (get a) (get b)) (hstep : ∀ a b, R (get a) b → Q a (set a b))
    (h : t.Stays R (get s) fun _ _ => True) (hpost : ∀ r u, post r u) :
    (t.within get set).Stays Q s post := by
  induction t generalizing s with
  | done r => exact hpost r s
  | look next ih => exact fun raised => ih raised (h raised)
  | step change next ih =>
    intro u v hu hv
    obtain ⟨b, hb, rfl⟩ := Option.map_eq_some_iff.1 hv
    obtain ⟨hmove, hnext⟩ := h (get u) b (hview s u hu) hb
    refine ⟨hstep u b hmove, ih (get u) ?_⟩
    rw [hget]
    exact hnext

/-- At its end a task is where the relation leads. -/
theorem Stays.reached (hrefl : ∀ s, R s s) (htrans : ∀ s u v, R s u → R u v → R s v)
    {t : Task σ α} {s : σ} (h : t.Stays R s fun _ _ => True) : t.Stays R s fun _ u => R s u := by
  induction t generalizing s with
  | done r => exact hrefl s
  | look next ih => exact fun raised => ih raised (h raised)
  | step change next ih =>
    intro u v hu hv
    obtain ⟨hmove, hnext⟩ := h u v hu hv
    refine ⟨hmove, (ih u hnext).mono fun _ w hw => ?_⟩
    exact htrans s u w hu (htrans u v w hmove hw)

/-- The others may go on before the task does. -/
theorem Stays.later (htrans : ∀ s u v, R s u → R u v → R s v) {t : Task σ α} {s u : σ}
    (h : t.Stays R s fun _ _ => True) (hu : R s u) : t.Stays R u fun _ _ => True := by
  induction t with
  | done r => trivial
  | look next ih => exact fun raised => ih raised (h raised)
  | step change next ih => exact fun v w hv hw => h v w (htrans s u v hu hv) hw

end Task

/-! ## Pools -/

/-- The pool has stayed in the relation, and its tasks will. -/
structure Pool.Stays (R : σ → σ → Prop) (origin : σ) (p : Pool σ α) : Prop where
  reached : R origin p.state
  members : ∀ task, .running task ∈ p.members → task.Stays R p.state fun _ _ => True

namespace Pool.Stays

variable {origin : σ} {p p' : Pool σ α}

theorem start (hrefl : ∀ s, R s s) {tasks : List (Task σ α)}
    (h : ∀ task ∈ tasks, task.Stays R origin fun _ _ => True) :
    Stays R origin (Pool.start tasks origin) where
  reached := hrefl origin
  members task htask := by
    obtain ⟨_, ht, heq⟩ := List.mem_map.1 htask
    cases heq
    exact h task ht

/-- A step changes one member and the state. -/
theorem set (htrans : ∀ s u v, R s u → R u v → R s v) (h : Stays R origin p) {i : Nat}
    {m : Member σ α} {raised : Bool} {state : σ} (hstate : R p.state state)
    (hm : ∀ task, m = .running task → task.Stays R state fun _ _ => True) :
    Stays R origin ⟨p.members.set i m, raised, state⟩ where
  reached := htrans _ _ _ h.reached hstate
  members task htask := by
    rcases List.mem_or_eq_of_mem_set htask with hold | hnew
    · exact (h.members task hold).later htrans hstate
    · exact hm task hnew.symm

theorem step (hrefl : ∀ s, R s s) (htrans : ∀ s u v, R s u → R u v → R s v)
    (h : Stays R origin p) {i : Nat} (hstep : p.step? i = some p') : Stays R origin p' := by
  rcases step?_cases hstep with ⟨r, hi, rfl⟩ | ⟨next, hi, rfl⟩ | ⟨change, next, s, hi, hs, rfl⟩
  · exact h.set htrans (hrefl _) fun task heq => nomatch heq
  · have htask := h.members _ (List.mem_of_getElem? hi)
    refine h.set htrans (hrefl _) fun task heq => ?_
    cases heq
    exact htask p.raised
  · have htask := h.members _ (List.mem_of_getElem? hi)
    obtain ⟨hmove, hnext⟩ := htask p.state s (hrefl _) hs
    refine h.set htrans hmove fun task heq => ?_
    cases heq
    exact hnext

/-- Every schedule keeps to a relation that the tasks keep to. -/
theorem run (hrefl : ∀ s, R s s) (htrans : ∀ s u v, R s u → R u v → R s v)
    (h : Stays R origin p) (schedule : Schedule) : Stays R origin (p.run schedule) := by
  induction schedule generalizing p with
  | nil => exact h
  | cons i schedule ih =>
    rw [Pool.run]
    cases hstep : p.step? i with
    | none => exact ih h
    | some p' => exact ih (h.step hrefl htrans hstep)

end Pool.Stays

/-- What tasks come to side by side is reached in the relation. -/
theorem fanOut_stays (hrefl : ∀ s, R s s) (htrans : ∀ s u v, R s u → R u v → R s v)
    {tasks : List (Task σ α)} {s : σ} (h : ∀ task ∈ tasks, task.Stays R s fun _ _ => True)
    (schedule : Schedule) : R s (fanOut schedule tasks s).2 := by
  obtain ⟨more, hmore⟩ := Pool.finish_eq_run ((Pool.start tasks s).run schedule)
  have hrun := ((Pool.Stays.start hrefl h).run hrefl htrans schedule).run hrefl htrans more
  show R s ((Pool.start tasks s).run schedule).finish.state
  rw [hmore]
  exact hrun.reached

end Equijoin
