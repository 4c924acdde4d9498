import Equijoin.Proofs.Tasks.Blindness
import Equijoin.Proofs.Tasks.Permits

/-! # Tasks that keep to a part of the state

What a task may do among others that do anything at all: its steps are looked at from every state
and under every flag, and not only from those that a run comes to.

* `Footing.Confines`: the steps of a task go by what it can tell apart, and stay in its moves.
* one rule for every way in which tasks are built.
* `Task.Changes`: a step of a task can change what is seen of the state.
* `Pool.changes_of_step`, `Pool.changes_of_run`: what a pool changes, one of its tasks can change.
-/

set_option autoImplicit false

namespace Equijoin

variable {σ τ α β γ : Type}

/-! ## Confinement -/

namespace Footing

/-- From whatever state, a step of the task is a move, and from states that agree the task takes the
same step to states that agree. -/
def Confines (F : Footing σ) : Task σ α → Prop
  | .done _ => True
  | .look next => ∀ raised, F.Confines (next raised)
  | .step change next => ∀ s, (∀ s', change s = some s' → F.moves s s') ∧
    (∀ u, F.agrees s u → Option.Rel F.agrees (change s) (change u) ∧ next u = next s) ∧
      F.Confines (next s)

variable {F : Footing σ}

theorem confines_done (r : Outcome α) : F.Confines (.done r : Task σ α) := trivial

theorem Confines.bind {t : Task σ α} {f : α → Task σ β} (h : F.Confines t)
    (hf : ∀ a, F.Confines (f a)) : F.Confines (t.bind f) := by
  induction t with
  | done r =>
    cases r with
    | ok a => exact hf a
    | error fault => trivial
  | look next ih => exact fun raised => ih raised (h raised)
  | step change next ih =>
    intro s
    obtain ⟨hmove, hsame, hnext⟩ := h s
    refine ⟨hmove, fun u hu => ?_, ih s hnext⟩
    obtain ⟨hchange, hrest⟩ := hsame u hu
    exact ⟨hchange, congrArg (fun t => t.bind f) hrest⟩

theorem Confines.caught {t : Task σ α} (h : F.Confines t) : F.Confines t.caught := by
  induction t with
  | done r => trivial
  | look next ih => exact fun raised => ih raised (h raised)
  | step change next ih =>
    intro s
    obtain ⟨hmove, hsame, hnext⟩ := h s
    refine ⟨hmove, fun u hu => ?_, ih s hnext⟩
    obtain ⟨hchange, hrest⟩ := hsame u hu
    exact ⟨hchange, congrArg Task.caught hrest⟩

theorem confines_check : F.Confines (Task.check : Task σ Unit) := by
  intro raised
  cases raised <;> trivial

/-- A task that reads the state must go on in the same way from states that agree. -/
theorem confines_read_bind {f : σ → Task σ β} (hrefl : ∀ s, F.moves s s)
    (hsame : ∀ s u, F.agrees s u → f u = f s) (h : ∀ s, F.Confines (f s)) :
    F.Confines (Task.read.bind f) := by
  intro s
  refine ⟨fun s' hs => ?_, fun u hu => ⟨.some hu, hsame s u hu⟩, h s⟩
  cases hs
  exact hrefl s

theorem confines_act {change : σ → σ} (hmove : ∀ s, F.moves s (change s))
    (hsame : ∀ s u, F.agrees s u → F.agrees (change s) (change u)) :
    F.Confines (Task.act change) := by
  intro s
  refine ⟨fun s' hs => ?_, fun u hu => ⟨.some (hsame s u hu), rfl⟩, trivial⟩
  cases hs
  exact hmove s

theorem confines_await {change : σ → Option σ} (hmove : ∀ s s', change s = some s' → F.moves s s')
    (hsame : ∀ s u, F.agrees s u → Option.Rel F.agrees (change s) (change u)) :
    F.Confines (Task.await change) :=
  fun s => ⟨hmove s, fun u hu => ⟨hsame s u hu, rfl⟩, trivial⟩

theorem confines_attempt {change : σ → Outcome σ} (hrefl : ∀ s, F.moves s s)
    (hmove : ∀ s s', change s = .ok s' → F.moves s s')
    (hsame : ∀ s u, F.agrees s u → Alike F.agrees (change s) (change u)) :
    F.Confines (Task.attempt change) := by
  intro s
  cases hs : change s with
  | ok s' =>
    refine ⟨fun v hv => ?_, fun u hu => ?_, trivial⟩
    · simp only [hs, Option.some.injEq] at hv
      exact hv ▸ hmove s s' hs
    · obtain ⟨u', hu', hagree⟩ := (hsame s u hu).ok hs
      simp only [hs, hu']
      exact ⟨.some hagree, rfl⟩
  | error fault =>
    refine ⟨fun v hv => ?_, fun u hu => ?_, trivial⟩
    · simp only [hs, Option.some.injEq] at hv
      exact hv ▸ hrefl s
    · simp only [hs, (hsame s u hu).error hs]
      exact ⟨.some hu, trivial⟩

/-- The footing on a larger state of a task that knows a part of it, where states that agree are
equal in all other parts. -/
def inside (F : Footing σ) (get : τ → σ) (set : τ → σ → τ) : Footing τ where
  agrees t u := u = set t (get u) ∧ F.agrees (get t) (get u)
  moves t u := F.moves (get t) (get u)

theorem Confines.within {get : τ → σ} {set : τ → σ → τ} (hget : ∀ t s, get (set t s) = s)
    (hset : ∀ t s s', set (set t s) s' = set t s') {task : Task σ α} (h : F.Confines task) :
    (F.inside get set).Confines (task.within get set) := by
  induction task with
  | done r => trivial
  | look next ih => exact fun raised => ih raised (h raised)
  | step change next ih =>
    intro t
    obtain ⟨hmove, hsame, hnext⟩ := h (get t)
    refine ⟨fun t' ht => ?_, fun u hu => ?_, ih (get t) hnext⟩
    · obtain ⟨s', hs, rfl⟩ := Option.map_eq_some_iff.1 ht
      show F.moves (get t) (get (set t s'))
      rw [hget]
      exact hmove s' hs
    · obtain ⟨hset', hagree⟩ := hu
      obtain ⟨hchange, hrest⟩ := hsame (get u) hagree
      refine ⟨?_, congrArg (Task.within get set) hrest⟩
      dsimp only
      revert hchange
      cases change (get t) <;> cases change (get u) <;> intro hchange
      · exact .none
      · cases hchange
      · cases hchange
      · rename_i s' u'
        cases hchange with
        | some hagree' =>
          refine .some ⟨?_, ?_⟩
          · rw [hget, hset, hset', hset]
          · rw [hget, hget]
            exact hagree'

/-- A confined task is blind to a difference that its footing does not see and its moves keep. -/
theorem Confines.blind {R : σ → σ → Prop} (hagree : ∀ s u, R s u → F.agrees s u)
    (hstep : ∀ s u s' u', R s u → F.moves s s' → F.moves u u' → F.agrees s' u' → R s' u')
    {t : Task σ α} (h : F.Confines t) : t.Blind R := by
  induction t with
  | done r => trivial
  | look next ih => exact fun raised => ih raised (h raised)
  | step change next ih =>
    intro s u hsu
    obtain ⟨hmove, hsame, hnext⟩ := h s
    obtain ⟨hchange, hrest⟩ := hsame u (hagree s u hsu)
    refine ⟨?_, hrest.symm, ih s hnext⟩
    have hmove' := (h u).1
    revert hmove hmove' hchange
    cases change s <;> cases change u <;> intro hmove hchange hmove'
    · exact .none
    · cases hchange
    · cases hchange
    · cases hchange with
      | some hagree' => exact .some (hstep s u _ _ hsu (hmove _ rfl) (hmove' _ rfl) hagree')

end Footing

/-! ## Changes -/

/-- From some state, and under some flags, a step of the task changes what is seen. -/
def Task.Changes (view : σ → γ) : Task σ α → Prop
  | .done _ => False
  | .look next => ∃ raised, (next raised).Changes view
  | .step change next =>
    ∃ s, (∃ s', change s = some s' ∧ view s' ≠ view s) ∨ (next s).Changes view

variable {view : σ → γ}

/-- What a confined task changes is changed by one of its moves. -/
theorem Footing.Confines.moves_of_changes {F : Footing σ} {t : Task σ α} (h : F.Confines t)
    (hchanges : t.Changes view) : ∃ s s', F.moves s s' ∧ view s' ≠ view s := by
  induction t with
  | done r => exact hchanges.elim
  | look next ih =>
    obtain ⟨raised, hchanges⟩ := hchanges
    exact ih raised (h raised) hchanges
  | step change next ih =>
    obtain ⟨s, ⟨s', hs, hview⟩ | hchanges⟩ := hchanges
    · exact ⟨s, s', (h s).1 s' hs, hview⟩
    · exact ih s (h s).2.2 hchanges

theorem Task.Changes.bind {t : Task σ α} {f : α → Task σ β} (h : t.Changes view) :
    (t.bind f).Changes view := by
  induction t with
  | done r => exact h.elim
  | look next ih =>
    obtain ⟨raised, hnext⟩ := h
    exact ⟨raised, ih raised hnext⟩
  | step change next ih =>
    obtain ⟨s, hchange | hnext⟩ := h
    · exact ⟨s, .inl hchange⟩
    · exact ⟨s, .inr (ih s hnext)⟩

theorem Task.Changes.caught {t : Task σ α} (h : t.Changes view) : t.caught.Changes view := by
  induction t with
  | done r => exact h.elim
  | look next ih =>
    obtain ⟨raised, hnext⟩ := h
    exact ⟨raised, ih raised hnext⟩
  | step change next ih =>
    obtain ⟨s, hchange | hnext⟩ := h
    · exact ⟨s, .inl hchange⟩
    · exact ⟨s, .inr (ih s hnext)⟩

/-- Whatever the first task comes to, if its fault is caught the second one follows. -/
theorem Task.changes_caught_bind (s : σ) {t : Task σ α} {f : Outcome α → Task σ β}
    (h : ∀ r, (f r).Changes view) : (t.caught.bind f).Changes view := by
  induction t with
  | done r => exact h r
  | look next ih => exact ⟨true, ih true⟩
  | step change next ih => exact ⟨s, .inr (ih s)⟩

namespace Pool

variable {tasks : List (Task σ α)} {p p' : Pool σ α} {i : Nat}

/-- What the rest of a task can change, the task could change when it began. -/
def Stems (view : σ → γ) (tasks : List (Task σ α)) (p : Pool σ α) : Prop :=
  ∀ (i : Nat) (t : Task σ α), p.members[i]? = some (.running t) → t.Changes view →
    ∃ origin : Task σ α, tasks[i]? = some origin ∧ origin.Changes view

theorem stems_start (tasks : List (Task σ α)) (s : σ) : Stems view tasks (start tasks s) := by
  intro i t ht hchanges
  simp only [start, List.getElem?_map, Option.map_eq_some_iff] at ht
  obtain ⟨origin, horigin, heq⟩ := ht
  cases heq
  exact ⟨t, horigin, hchanges⟩

/-- A step changes one member, and leaves of a task what could be left of it. -/
theorem Stems.set (h : Stems view tasks p) {t : Task σ α} (hi : p.members[i]? = some (.running t))
    {m : Member σ α} (hm : ∀ t', m = .running t' → t'.Changes view → t.Changes view)
    (raised : Bool) (s : σ) : Stems view tasks ⟨p.members.set i m, raised, s⟩ := by
  intro j t' ht' hchanges
  have hj : (p.members.set i m)[j]? = some (.running t') := ht'
  by_cases hij : i = j
  · subst hij
    rw [List.getElem?_set_self (List.getElem?_eq_some_iff.1 hi).1] at hj
    exact h i t hi (hm t' (Option.some.inj hj) hchanges)
  · rw [List.getElem?_set_ne hij] at hj
    exact h j t' hj hchanges

theorem Stems.step (h : Stems view tasks p) (hstep : p.step? i = some p') :
    Stems view tasks p' := by
  rcases step?_cases hstep with ⟨r, hi, rfl⟩ | ⟨next, hi, rfl⟩ | ⟨change, next, s, hi, -, rfl⟩
  · refine h.set hi (fun t' heq => ?_) _ _
    cases heq
  · refine h.set hi (fun t' heq hchanges => ?_) _ _
    cases heq
    exact ⟨p.raised, hchanges⟩
  · refine h.set hi (fun t' heq hchanges => ?_) _ _
    cases heq
    exact ⟨p.state, .inr hchanges⟩

theorem Stems.run (h : Stems view tasks p) (schedule : Schedule) :
    Stems view tasks (p.run schedule) := by
  induction schedule generalizing p with
  | nil => exact h
  | cons i schedule ih =>
    rw [Pool.run]
    cases hstep : p.step? i with
    | none => exact ih h
    | some p' => exact ih (h.step hstep)

theorem changes_of_step (h : Stems view tasks p) (hstep : p.step? i = some p')
    (hview : view p'.state ≠ view p.state) :
    ∃ t : Task σ α, tasks[i]? = some t ∧ t.Changes view := by
  rcases step?_cases hstep with ⟨r, -, rfl⟩ | ⟨next, -, rfl⟩ | ⟨change, next, s, hi, hs, rfl⟩
  · exact absurd rfl hview
  · exact absurd rfl hview
  · exact h i _ hi ⟨p.state, .inl ⟨s, hs, hview⟩⟩

theorem changes_of_run (h : Stems view tasks p) {schedule : Schedule}
    (hview : view (p.run schedule).state ≠ view p.state) :
    ∃ (i : Nat) (t : Task σ α), tasks[i]? = some t ∧ t.Changes view := by
  induction schedule generalizing p with
  | nil => exact absurd rfl hview
  | cons i schedule ih =>
    rw [Pool.run] at hview
    cases hstep : p.step? i with
    | none =>
      rw [hstep] at hview
      exact ih h hview
    | some p' =>
      rw [hstep] at hview
      by_cases hkeep : view p'.state = view p.state
      · exact ih (h.step hstep) (hkeep ▸ hview)
      · exact ⟨i, changes_of_step h hstep hkeep⟩

end Pool

/-- What tasks change side by side, one of them can change. -/
theorem changes_of_fanOut {tasks : List (Task σ α)} {s : σ} {schedule : Schedule}
    (hview : view (fanOut schedule tasks s).2 ≠ view s) :
    ∃ (i : Nat) (t : Task σ α), tasks[i]? = some t ∧ t.Changes view := by
  obtain ⟨more, hmore⟩ := Pool.finish_eq_run ((Pool.start tasks s).run schedule)
  have hrun : (fanOut schedule tasks s).2 =
      ((Pool.start tasks s).run (schedule ++ more)).state := by
    rw [Pool.run_append]
    exact congrArg Pool.state hmore
  rw [hrun] at hview
  exact Pool.changes_of_run (Pool.stems_start tasks s) hview

end Equijoin
