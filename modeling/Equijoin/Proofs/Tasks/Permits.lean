import Mathlib.Algebra.BigOperators.Group.Finset.Piecewise
import Equijoin.Proofs.Tasks.Footing
import Equijoin.Task.Pool

/-! # Permits, and why every task of a pool ends

The only thing that a task waits for is a permit. A task that has one never waits again, and gives it
back.

* `Task.Untied`: a task that never waits and has nothing to do with permits.
* `Task.Balanced`: a task that holds some permits accounts for them until its end, and waits only
  while it holds none and none is free.
* `Pool.Accounts`: free permits and those that the tasks of a pool hold, a number in all.
* `Pool.ended_finish`: if there is a permit at all, the tasks that a schedule leaves unfinished end.
-/

set_option autoImplicit false

namespace Equijoin

variable {σ τ α β : Type} {free : σ → Nat}

/-! ## Tasks -/

namespace Task

/-- The task never waits, and leaves the permits alone; `free` counts those that nobody holds. -/
def Untied (free : σ → Nat) : Task σ α → Prop
  | done _ => True
  | look next => ∀ raised, (next raised).Untied free
  | step change next => ∀ s, ∃ s', change s = some s' ∧ free s' = free s ∧ (next s).Untied free

/-- The task, which holds some permits, accounts for them until its end. -/
def Balanced (free : σ → Nat) : Task σ α → Nat → Prop
  | done _, held => held = 0
  | look next, held => ∀ raised, (next raised).Balanced free held
  | step change next, held => ∀ s,
    (change s = none ∧ held = 0 ∧ free s = 0) ∨
      ∃ s' held', change s = some s' ∧ free s' + held' = free s + held ∧
        (next s).Balanced free held'

theorem untied_done (r : Outcome α) : (done r : Task σ α).Untied free := trivial

theorem untied_check : (check : Task σ Unit).Untied free := by
  intro raised
  cases raised <;> trivial

theorem untied_read : (read : Task σ σ).Untied free := fun s => ⟨s, rfl, rfl, trivial⟩

theorem untied_act {change : σ → σ} (h : ∀ s, free (change s) = free s) :
    (act change).Untied free := fun s => ⟨change s, rfl, h s, trivial⟩

theorem untied_attempt {change : σ → Outcome σ} (h : ∀ s s', change s = .ok s' → free s' = free s) :
    (attempt change).Untied free := by
  intro s
  refine ⟨_, rfl, ?_, trivial⟩
  cases hs : change s with
  | ok s' => exact h s s' hs
  | error fault => rfl

theorem Untied.bind {t : Task σ α} {f : α → Task σ β} (h : t.Untied free)
    (hf : ∀ a, (f a).Untied free) : (t.bind f).Untied free := by
  induction t with
  | done r =>
    cases r with
    | ok a => exact hf a
    | error fault => trivial
  | look next ih => exact fun raised => ih raised (h raised)
  | step change next ih =>
    intro s
    obtain ⟨s', hs, hfree, hnext⟩ := h s
    exact ⟨s', hs, hfree, ih s hnext⟩

theorem Untied.caught {t : Task σ α} (h : t.Untied free) : t.caught.Untied free := by
  induction t with
  | done r => trivial
  | look next ih => exact fun raised => ih raised (h raised)
  | step change next ih =>
    intro s
    obtain ⟨s', hs, hfree, hnext⟩ := h s
    exact ⟨s', hs, hfree, ih s hnext⟩

theorem Untied.within {get : τ → σ} {set : τ → σ → τ} {all : τ → Nat} {t : Task σ α}
    (hset : ∀ u s, all (set u s) = all u) (h : t.Untied free) :
    (t.within get set).Untied all := by
  induction t with
  | done r => trivial
  | look next ih => exact fun raised => ih raised (h raised)
  | step change next ih =>
    intro u
    obtain ⟨s', hs, -, hnext⟩ := h (get u)
    exact ⟨set u s', by simp only [hs, Option.map_some], hset u s', ih (get u) hnext⟩

theorem Untied.balanced {t : Task σ α} (h : t.Untied free) : t.Balanced free 0 := by
  induction t with
  | done r => rfl
  | look next ih => exact fun raised => ih raised (h raised)
  | step change next ih =>
    intro s
    obtain ⟨s', hs, hfree, hnext⟩ := h s
    exact .inr ⟨s', 0, hs, by rw [hfree], ih s hnext⟩

/-- A permit is held while a task runs that has nothing to do with permits. -/
theorem Untied.caught_bind {t : Task σ α} {f : Outcome α → Task σ β} {held : Nat}
    (h : t.Untied free) (hf : ∀ r, (f r).Balanced free held) :
    (t.caught.bind f).Balanced free held := by
  induction t with
  | done r => exact hf r
  | look next ih => exact fun raised => ih raised (h raised)
  | step change next ih =>
    intro s
    obtain ⟨s', hs, hfree, hnext⟩ := h s
    exact .inr ⟨s', held, hs, by rw [hfree], ih s hnext⟩

/-- Taken as far as it gets, a task holds no permit; it has ended, or it waits for one. -/
theorem Balanced.finish {t : Task σ α} {held : Nat} (h : t.Balanced free held) (raised : Bool)
    (s : σ) :
    (t.finish raised s).1.Balanced free 0 ∧
      free (t.finish raised s).2 = free s + held ∧
      ((∃ r, (t.finish raised s).1 = done r) ∨ free (t.finish raised s).2 = 0) := by
  induction t generalizing held s with
  | done r =>
    have hheld : held = 0 := h
    subst hheld
    exact ⟨rfl, rfl, .inl ⟨r, rfl⟩⟩
  | look next ih => exact ih raised (h raised) s
  | step change next ih =>
    rcases h s with ⟨hnone, rfl, hzero⟩ | ⟨s', held', hsome, hsum, hnext⟩
    · simp only [Task.finish, hnone]
      exact ⟨h, rfl, .inr hzero⟩
    · simp only [Task.finish, hsome]
      obtain ⟨hrest, hfree, hend⟩ := ih s hnext s'
      exact ⟨hrest, by rw [hfree, hsum], hend⟩

end Task

/-! ## Pools -/

/-- A member accounts for the permits that it holds. -/
def Member.Balanced (free : σ → Nat) (held : Nat) : Member σ α → Prop
  | .running task => task.Balanced free held
  | .ended _ => held = 0

namespace Pool

theorem step?_cases {p p' : Pool σ α} {i : Nat} (h : p.step? i = some p') :
    (∃ r, p.members[i]? = some (.running (.done r)) ∧
      p' = ⟨p.members.set i (.ended r), p.raised || failed r, p.state⟩) ∨
    (∃ next, p.members[i]? = some (.running (.look next)) ∧
      p' = ⟨p.members.set i (.running (next p.raised)), p.raised, p.state⟩) ∨
    (∃ change next s, p.members[i]? = some (.running (.step change next)) ∧
      change p.state = some s ∧
      p' = ⟨p.members.set i (.running (next p.state)), p.raised, s⟩) := by
  unfold step? at h
  split at h
  · rename_i r hm
    cases h
    exact .inl ⟨r, hm, rfl⟩
  · rename_i next hm
    cases h
    exact .inr (.inl ⟨next, hm, rfl⟩)
  · rename_i change next hm
    obtain ⟨s, hs, rfl⟩ := Option.map_eq_some_iff.1 h
    exact .inr (.inr ⟨change, next, s, hm, hs, rfl⟩)
  · cases h

/-- Every member accounts for the permits that it holds, and with the free ones they are `total`. -/
structure Accounts (free : σ → Nat) (held : Nat → Nat) (total : Nat) (p : Pool σ α) : Prop where
  member : ∀ (i : Nat) (m : Member σ α), p.members[i]? = some m → m.Balanced free (held i)
  sum : free p.state + ∑ i ∈ Finset.range p.members.length, held i = total

variable {held : Nat → Nat} {total : Nat} {p : Pool σ α}

theorem accounts_start {tasks : List (Task σ α)} {s : σ} (h : ∀ t ∈ tasks, t.Balanced free 0) :
    Accounts free (fun _ => 0) (free s) (start tasks s) := by
  refine ⟨fun i m hm => ?_, by simp [start]⟩
  simp only [start, List.getElem?_map, Option.map_eq_some_iff] at hm
  obtain ⟨t, ht, rfl⟩ := hm
  exact h t (List.mem_of_getElem? ht)

theorem Accounts.set {i n : Nat} {m : Member σ α} {raised : Bool} {s : σ}
    (h : Accounts free held total p) (hi : i < p.members.length) (hm : m.Balanced free n)
    (hsum : free s + n = free p.state + held i) :
    Accounts free (Function.update held i n) total ⟨p.members.set i m, raised, s⟩ := by
  refine ⟨fun j m' hj => ?_, ?_⟩
  · simp only [List.getElem?_set] at hj
    split at hj
    · rename_i hij
      subst hij
      obtain rfl : m = m' := by simpa [hi] using hj
      simpa using hm
    · rename_i hij
      rw [Function.update_of_ne (Ne.symm hij)]
      exact h.member j m' hj
  · have hmem : i ∈ Finset.range p.members.length := Finset.mem_range.2 hi
    have hparts := Finset.add_sum_erase _ held hmem
    simp only [List.length_set]
    rw [Finset.sum_update_of_mem hmem, Finset.sdiff_singleton_eq_erase]
    have := h.sum
    omega

/-- A step of a task changes what is free and what the task holds by as much. -/
theorem Accounts.step {p' : Pool σ α} {i : Nat} (h : Accounts free held total p)
    (hstep : p.step? i = some p') : ∃ held', Accounts free held' total p' := by
  rcases step?_cases hstep with ⟨r, hm, rfl⟩ | ⟨next, hm, rfl⟩ | ⟨change, next, s, hm, hs, rfl⟩
  · have hi : i < p.members.length := (List.getElem?_eq_some_iff.1 hm).1
    have hzero : held i = 0 := h.member i _ hm
    exact ⟨_, h.set hi rfl (by rw [hzero])⟩
  · have hi : i < p.members.length := (List.getElem?_eq_some_iff.1 hm).1
    exact ⟨_, h.set hi (h.member i _ hm p.raised) rfl⟩
  · have hi : i < p.members.length := (List.getElem?_eq_some_iff.1 hm).1
    rcases h.member i _ hm p.state with ⟨hnone, -⟩ | ⟨s', held', hsome, hsum, hnext⟩
    · rw [hs] at hnone
      cases hnone
    · obtain rfl : s = s' := Option.some.inj (hs.symm.trans hsome)
      exact ⟨_, h.set hi hnext hsum⟩

theorem Accounts.run (h : Accounts free held total p) (schedule : Schedule) :
    ∃ held', Accounts free held' total (p.run schedule) := by
  induction schedule generalizing held p with
  | nil => exact ⟨held, h⟩
  | cons i rest ih =>
    cases hstep : p.step? i with
    | some p' =>
      obtain ⟨held', h'⟩ := h.step hstep
      simpa only [Pool.run, hstep, Option.getD_some] using ih h'
    | none => simpa only [Pool.run, hstep, Option.getD_none] using ih h

theorem Accounts.settle (h : Accounts free held total p) (i : Nat) :
    Accounts free (Function.update held i 0) total (p.settle i) := by
  cases hm : p.members[i]? with
  | none =>
    have hlen : p.members.length ≤ i := List.getElem?_eq_none_iff.1 hm
    simp only [Pool.settle, hm]
    refine ⟨fun j m hj => ?_, ?_⟩
    · have hji : j ≠ i := by
        rintro rfl
        rw [hm] at hj
        cases hj
      rw [Function.update_of_ne hji]
      exact h.member j m hj
    · rw [← h.sum, Finset.sum_update_of_notMem]
      simpa using hlen
  | some m =>
    have hi : i < p.members.length := (List.getElem?_eq_some_iff.1 hm).1
    have hbal := h.member i m hm
    cases m with
    | ended r =>
      have hzero : held i = 0 := hbal
      simp only [Pool.settle, hm]
      rw [← hzero, Function.update_eq_self]
      exact h
    | running t =>
      obtain ⟨hrest, hfree, -⟩ := Task.Balanced.finish hbal p.raised p.state
      simp only [Pool.settle, hm]
      split
      · rename_i r s heq
        rw [heq] at hfree
        exact h.set hi rfl hfree
      · rename_i t' s _ heq
        rw [heq] at hrest hfree
        exact h.set hi hrest hfree

theorem length_settle (p : Pool σ α) (i : Nat) :
    (p.settle i).members.length = p.members.length := by
  unfold settle
  split
  · split <;> simp
  · rfl

theorem Accounts.settles (h : Accounts free held total p) (k : Nat) :
    Accounts free (fun j => if j < k then 0 else held j) total
      ((List.range k).foldl Pool.settle p) := by
  induction k with
  | zero => simpa using h
  | succ k ih =>
    rw [List.range_succ, List.foldl_append]
    have heq : (fun j => if j < k + 1 then 0 else held j) =
        Function.update (fun j => if j < k then 0 else held j) k 0 := by
      funext j
      by_cases hj : j = k
      · subst hj; simp
      · rw [Function.update_of_ne hj]
        exact if_congr (by omega) rfl rfl
    rw [heq]
    exact ih.settle k

theorem length_settles (p : Pool σ α) (k : Nat) :
    ((List.range k).foldl Pool.settle p).members.length = p.members.length := by
  induction k with
  | zero => rfl
  | succ k ih => rw [List.range_succ, List.foldl_append, List.foldl_cons, List.foldl_nil,
      length_settle, ih]

/-- After a sweep all permits are free. -/
theorem Accounts.sweep (h : Accounts free held total p) :
    ∃ held', Accounts free held' total p.sweep ∧ ∀ i, i < p.members.length → held' i = 0 :=
  ⟨_, h.settles p.members.length, fun _ hi => if_pos hi⟩

theorem Accounts.ended_settle (h : Accounts free held total p) (htotal : 0 < total)
    (hzero : ∀ i, i < p.members.length → held i = 0) {i : Nat} (hi : i < p.members.length) :
    ∃ r, (p.settle i).members[i]? = some (.ended r) := by
  have hfree : free p.state = total := by
    have := h.sum
    rw [Finset.sum_eq_zero fun j hj => hzero j (Finset.mem_range.1 hj)] at this
    simpa using this
  have hm := List.getElem?_eq_getElem hi
  cases hmem : p.members[i] with
  | ended r =>
    rw [hmem] at hm
    exact ⟨r, by simp only [Pool.settle, hm]⟩
  | running t =>
    rw [hmem] at hm
    obtain ⟨-, hsum, hend⟩ := Task.Balanced.finish (h.member i _ hm) p.raised p.state
    rcases hend with ⟨r, hr⟩ | hnone
    · have heq : t.finish p.raised p.state = (.done r, (t.finish p.raised p.state).2) :=
        Prod.ext hr rfl
      refine ⟨r, ?_⟩
      simp only [Pool.settle, hm]
      rw [heq]
      simp [hi]
    · rw [hnone] at hsum
      omega

theorem ended_of_settle {i j : Nat} {r : Outcome α} (h : p.members[j]? = some (.ended r)) :
    (p.settle i).members[j]? = some (.ended r) := by
  by_cases hij : i = j
  · subst hij
    simp only [Pool.settle, h]
  · unfold settle
    split
    · split <;> simp [hij, h]
    · exact h

theorem Accounts.ended_settles (h : Accounts free held total p) (htotal : 0 < total)
    (hzero : ∀ i, i < p.members.length → held i = 0) (k : Nat) (hk : k ≤ p.members.length) :
    ∀ i, i < k → ∃ r, ((List.range k).foldl Pool.settle p).members[i]? = some (.ended r) := by
  induction k with
  | zero => exact fun i hi => absurd hi (Nat.not_lt_zero i)
  | succ k ih =>
    intro i hi
    rw [List.range_succ, List.foldl_append, List.foldl_cons, List.foldl_nil]
    by_cases hik : i = k
    · subst hik
      refine (h.settles i).ended_settle htotal (fun j hj => ?_) (by rw [length_settles]; omega)
      rw [length_settles] at hj
      simp [hzero j hj]
    · obtain ⟨r, hr⟩ := ih (by omega) i (by omega)
      exact ⟨r, ended_of_settle hr⟩

/-- If there is a permit, every task ends in two sweeps: the first gets all permits back. -/
theorem Accounts.ended_finish (h : Accounts free held total p) (htotal : 0 < total) (i : Nat)
    (hi : i < p.members.length) : ∃ r, p.finish.members[i]? = some (.ended r) := by
  obtain ⟨held', hsweep, hzero⟩ := h.sweep
  have hlen : p.sweep.members.length = p.members.length := length_settles p _
  exact hsweep.ended_settles htotal (by rwa [hlen]) _ le_rfl i (by rwa [hlen])

theorem length_finish (p : Pool σ α) : p.finish.members.length = p.members.length := by
  rw [finish, sweep, length_settles, sweep, length_settles]

end Pool

end Equijoin
