import Equijoin.Proofs.Tasks.Footing

/-! # What a task may come to

While no other task takes a step, what a task comes to depends on the flag only, which may be raised
between any two looks.

* `Task.Yields`: a result and a state to which a task may come from a state.
* `Task.Yields.of_alone`: a task that runs alone with one flag comes to what it may come to.
* one equation for every way in which tasks are built, so that the possible results of a task are
  found by going through its definition.
* `Task.Avoids`: a task never comes to a fault.
-/

set_option autoImplicit false

namespace Equijoin

namespace Task

variable {σ τ α β : Type} {s u : σ} {a : α} {fault : Fault}

/-- The task may come from the first state to the result and the second state, whatever it finds
each time that it looks at the flag. -/
def Yields : Task σ α → σ → Outcome α → σ → Prop
  | done result, s, r, u => result = r ∧ s = u
  | look next, s, r, u => ∃ raised, (next raised).Yields s r u
  | step change next, s, r, u => ∃ v, change s = some v ∧ (next s).Yields v r u

theorem Yields.of_alone {t : Task σ α} {raised : Bool} {r : Outcome α}
    (h : t.alone raised s = some (r, u)) : t.Yields s r u := by
  induction t generalizing s with
  | done result =>
    cases h
    exact ⟨rfl, rfl⟩
  | look next ih => exact ⟨raised, ih raised h⟩
  | step change next ih =>
    cases hs : change s with
    | none => simp [alone, finish, hs] at h
    | some v =>
      rw [alone_step raised next hs] at h
      exact ⟨v, hs, ih s h⟩

/-! ## Single steps -/

@[simp] theorem yields_done {result r : Outcome α} :
    (done result : Task σ α).Yields s r u ↔ result = r ∧ s = u := Iff.rfl

@[simp] theorem yields_read {r : Outcome σ} : read.Yields s r u ↔ .ok s = r ∧ s = u := by
  constructor
  · rintro ⟨v, hv, hr, hu⟩
    cases hv
    exact ⟨hr, hu⟩
  · exact fun h => ⟨s, rfl, h⟩

@[simp] theorem yields_act {change : σ → σ} {r : Outcome Unit} :
    (act change).Yields s r u ↔ .ok () = r ∧ change s = u := by
  constructor
  · rintro ⟨v, hv, hr, hu⟩
    cases hv
    exact ⟨hr, hu⟩
  · exact fun h => ⟨change s, rfl, h⟩

theorem yields_check {r : Outcome Unit} :
    check.Yields s r u ↔ (.ok () = r ∨ .error .cancelled = r) ∧ s = u := by
  constructor
  · rintro ⟨raised, h⟩
    cases raised with
    | true => exact ⟨.inr h.1, h.2⟩
    | false => exact ⟨.inl h.1, h.2⟩
  · rintro ⟨hr | hr, hu⟩
    · exact ⟨false, hr, hu⟩
    · exact ⟨true, hr, hu⟩

theorem Yields.of_await {change : σ → Option σ} {r : Outcome Unit}
    (h : (await change).Yields s r u) : .ok () = r ∧ change s = some u := by
  obtain ⟨v, hv, hr, rfl⟩ := h
  exact ⟨hr, hv⟩

/-- A change that fails changes nothing. -/
theorem Yields.of_attempt {change : σ → Outcome σ} {r : Outcome Unit}
    (h : (attempt change).Yields s r u) :
    change s = .ok u ∧ r = .ok () ∨
      ∃ fault, change s = .error fault ∧ r = .error fault ∧ u = s := by
  obtain ⟨v, hv, hr, hu⟩ := h
  cases hc : change s with
  | ok w =>
    simp only [hc, Option.some.injEq] at hv
    rw [hc] at hr
    exact .inl ⟨by rw [← hu, hv], hr.symm⟩
  | error fault =>
    simp only [hc, Option.some.injEq] at hv
    rw [hc] at hr
    exact .inr ⟨fault, rfl, hr.symm, by rw [← hu, hv]⟩

/-! ## Compound tasks -/

/-- What two tasks may come to: the first one fails, or the second one goes on where it ends. -/
theorem yields_bind {t : Task σ α} {f : α → Task σ β} {r : Outcome β} :
    (t.bind f).Yields s r u ↔ (∃ a v, t.Yields s (.ok a) v ∧ (f a).Yields v r u) ∨
      ∃ fault, t.Yields s (.error fault) u ∧ r = .error fault := by
  induction t generalizing s with
  | done result =>
    cases result with
    | ok a => simp
    | error fault => simp [eq_comm, and_comm]
  | look next ih =>
    simp only [look_bind, Yields, ih]
    constructor
    · rintro ⟨raised, ⟨a, v, ht, hf⟩ | ⟨fault, ht, hr⟩⟩
      · exact .inl ⟨a, v, ⟨raised, ht⟩, hf⟩
      · exact .inr ⟨fault, ⟨raised, ht⟩, hr⟩
    · rintro (⟨a, v, ⟨raised, ht⟩, hf⟩ | ⟨fault, ⟨raised, ht⟩, hr⟩)
      · exact ⟨raised, .inl ⟨a, v, ht, hf⟩⟩
      · exact ⟨raised, .inr ⟨fault, ht, hr⟩⟩
  | step change next ih =>
    simp only [step_bind, Yields, ih]
    constructor
    · rintro ⟨w, hw, ⟨a, v, ht, hf⟩ | ⟨fault, ht, hr⟩⟩
      · exact .inl ⟨a, v, ⟨w, hw, ht⟩, hf⟩
      · exact .inr ⟨fault, ⟨w, hw, ht⟩, hr⟩
    · rintro (⟨a, v, ⟨w, hw, ht⟩, hf⟩ | ⟨fault, ⟨w, hw, ht⟩, hr⟩)
      · exact ⟨w, hw, .inl ⟨a, v, ht, hf⟩⟩
      · exact ⟨w, hw, .inr ⟨fault, ht, hr⟩⟩

theorem yields_bind_ok {t : Task σ α} {f : α → Task σ β} {b : β} :
    (t.bind f).Yields s (.ok b) u ↔ ∃ a v, t.Yields s (.ok a) v ∧ (f a).Yields v (.ok b) u := by
  simp [yields_bind]

theorem yields_bind_error {t : Task σ α} {f : α → Task σ β} :
    (t.bind f).Yields s (.error fault) u ↔
      (∃ a v, t.Yields s (.ok a) v ∧ (f a).Yields v (.error fault) u) ∨
        t.Yields s (.error fault) u := by
  simp [yields_bind]

/-- A first task that has ended already. -/
theorem yields_done_bind {result : Outcome α} {f : α → Task σ β} {r : Outcome β} :
    ((done result).bind f).Yields s r u ↔
      (∃ a, result = .ok a ∧ (f a).Yields s r u) ∨
        ∃ fault, result = .error fault ∧ r = .error fault ∧ s = u := by
  cases result with
  | ok a => simp
  | error fault => simp [eq_comm]

@[simp] theorem yields_read_bind {f : σ → Task σ β} {r : Outcome β} :
    (read.bind f).Yields s r u ↔ (f s).Yields s r u := by
  constructor
  · rintro ⟨v, hv, h⟩
    cases hv
    exact h
  · exact fun h => ⟨s, rfl, h⟩

@[simp] theorem yields_act_bind {change : σ → σ} {f : Unit → Task σ β} {r : Outcome β} :
    ((act change).bind f).Yields s r u ↔ (f ()).Yields (change s) r u := by
  constructor
  · rintro ⟨v, hv, h⟩
    cases hv
    exact h
  · exact fun h => ⟨change s, rfl, h⟩

theorem yields_check_bind {f : Unit → Task σ β} {r : Outcome β} :
    (check.bind f).Yields s r u ↔ (f ()).Yields s r u ∨ r = .error .cancelled ∧ s = u := by
  constructor
  · rintro ⟨raised, h⟩
    cases raised with
    | true => exact .inr ⟨h.1.symm, h.2⟩
    | false => exact .inl h
  · rintro (h | ⟨hr, hu⟩)
    · exact ⟨false, h⟩
    · exact ⟨true, hr.symm, hu⟩

theorem yields_caught {t : Task σ α} {r : Outcome (Outcome α)} :
    t.caught.Yields s r u ↔ ∃ r', .ok r' = r ∧ t.Yields s r' u := by
  induction t generalizing s with
  | done result =>
    constructor
    · rintro ⟨hr, hu⟩
      exact ⟨result, hr, rfl, hu⟩
    · rintro ⟨r', hr, rfl, hu⟩
      exact ⟨hr, hu⟩
  | look next ih =>
    simp only [caught, Yields, ih]
    constructor
    · rintro ⟨raised, r', hr, ht⟩
      exact ⟨r', hr, raised, ht⟩
    · rintro ⟨r', hr, raised, ht⟩
      exact ⟨raised, r', hr, ht⟩
  | step change next ih =>
    simp only [caught, Yields, ih]
    constructor
    · rintro ⟨v, hv, r', hr, ht⟩
      exact ⟨r', hr, v, hv, ht⟩
    · rintro ⟨r', hr, v, hv, ht⟩
      exact ⟨v, hv, r', hr, ht⟩

theorem yields_caught_bind {t : Task σ α} {f : Outcome α → Task σ β} {r : Outcome β} :
    (t.caught.bind f).Yields s r u ↔ ∃ r' v, t.Yields s r' v ∧ (f r').Yields v r u := by
  rw [yields_bind]
  constructor
  · rintro (⟨r', v, ht, h⟩ | ⟨fault, ht, -⟩)
    · obtain ⟨_, hr, ht⟩ := yields_caught.1 ht
      cases hr
      exact ⟨r', v, ht, h⟩
    · obtain ⟨_, hr, -⟩ := yields_caught.1 ht
      cases hr
  · rintro ⟨r', v, ht, h⟩
    exact .inl ⟨r', v, yields_caught.2 ⟨r', rfl, ht⟩, h⟩

/-- A task on a part of the state changes that part only. -/
theorem yields_within {get : τ → σ} {set : τ → σ → τ} (hget : ∀ t s, get (set t s) = s)
    (hset : ∀ t s s', set (set t s) s' = set t s') (hself : ∀ t, set t (get t) = t)
    {task : Task σ α} {t v : τ} {r : Outcome α} :
    (task.within get set).Yields t r v ↔ ∃ u, task.Yields (get t) r u ∧ v = set t u := by
  induction task generalizing t with
  | done result =>
    constructor
    · rintro ⟨hr, rfl⟩
      exact ⟨get t, ⟨hr, rfl⟩, (hself t).symm⟩
    · rintro ⟨_, ⟨hr, rfl⟩, rfl⟩
      exact ⟨hr, (hself t).symm⟩
  | look next ih =>
    simp only [within, Yields, ih]
    constructor
    · rintro ⟨raised, u, hu, hv⟩
      exact ⟨u, ⟨raised, hu⟩, hv⟩
    · rintro ⟨u, ⟨raised, hu⟩, hv⟩
      exact ⟨raised, u, hu, hv⟩
  | step change next ih =>
    simp only [within, Yields, Option.map_eq_some_iff]
    constructor
    · rintro ⟨_, ⟨w, hw, rfl⟩, h⟩
      obtain ⟨u, hu, hv⟩ := (ih _).1 h
      rw [hget] at hu
      rw [hset] at hv
      exact ⟨u, ⟨w, hw, hu⟩, hv⟩
    · rintro ⟨u, ⟨w, hw, hu⟩, hv⟩
      refine ⟨set t w, ⟨w, hw, rfl⟩, (ih _).2 ⟨u, ?_, ?_⟩⟩
      · rw [hget]
        exact hu
      · rw [hset]
        exact hv

/-! ## Faults to which no task comes -/

/-- The task never comes to the fault. -/
def Avoids (fault : Fault) (t : Task σ α) : Prop := ∀ s u, ¬ t.Yields s (.error fault) u

theorem avoids_done {result : Outcome α} (h : result ≠ .error fault) :
    (done result : Task σ α).Avoids fault := fun _ _ hyields => h hyields.1

theorem avoids_read : (read : Task σ σ).Avoids fault := fun _ _ h => nomatch (yields_read.1 h).1

theorem avoids_check (h : fault ≠ .cancelled) : (check : Task σ Unit).Avoids fault := by
  intro s u hyields
  obtain ⟨hr | hr, -⟩ := yields_check.1 hyields
  · cases hr
  · exact h (Except.error.inj hr).symm

theorem avoids_attempt {change : σ → Outcome σ} (h : ∀ s, change s ≠ .error fault) :
    (attempt change).Avoids fault := by
  intro s u hyields
  rcases hyields.of_attempt with ⟨-, hr⟩ | ⟨e, hchange, hr, -⟩
  · cases hr
  · cases hr
    exact h s hchange

theorem Avoids.bind {t : Task σ α} {f : α → Task σ β} (h : t.Avoids fault)
    (hrest : ∀ a, (f a).Avoids fault) : (t.bind f).Avoids fault := by
  intro s u hyields
  rcases yields_bind_error.1 hyields with ⟨a, v, -, hf⟩ | ht
  · exact hrest a v u hf
  · exact h s u ht

end Task

end Equijoin
