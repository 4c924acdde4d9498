import Mathlib.Algebra.Order.BigOperators.Group.Finset
import Mathlib.Algebra.Ring.Nat
import Equijoin.Proofs.Tasks.Interleaving

/-! # Tasks that keep to a protocol

How far a task has come is not seen in the state that it shares, but what it has done to that state
is. A protocol says how the two go together, step by step; a ledger is a fact about the progress of
all tasks and the state, which the steps of the protocol keep.

* `Protocol`: the steps of a task, and where it may have to wait.
* `Task.Follows`: a task keeps to a protocol whatever flag and states it finds.
* `tally`: a quantity of each task, summed up over the tasks of a pool.
* `Pool.Follows.run`: the ledger holds after every schedule.
* `Pool.finished_follows`: what it says once all tasks have returned.
-/

set_option autoImplicit false

namespace Equijoin

variable {π σ τ α β : Type}

/-- What a task that has come some way may do to the state, and how far it has come then. -/
structure Protocol (π σ : Type) where
  moves : π → σ → π → σ → Prop
  /-- The task may find nothing to do but wait. -/
  waits : π → σ → Prop

/-! ## Tasks -/

namespace Task

variable {P : Protocol π σ}

/-- Whatever flag and states the task finds, its steps are moves of the protocol. Its result goes
with the progress that it has made by then. -/
def Follows (P : Protocol π σ) : Task σ α → π → (Outcome α → π → Prop) → Prop
  | done r, a, post => post r a
  | look next, a, post => ∀ raised, (next raised).Follows P a post
  | step change next, a, post => ∀ s,
    (change s = none ∧ P.waits a s) ∨
      ∃ s' b, change s = some s' ∧ P.moves a s b s' ∧ (next s).Follows P b post

theorem Follows.mono {t : Task σ α} {a : π} {post post' : Outcome α → π → Prop}
    (h : t.Follows P a post) (hpost : ∀ r b, post r b → post' r b) : t.Follows P a post' := by
  induction t generalizing a with
  | done r => exact hpost r a h
  | look next ih => exact fun raised => ih raised (h raised)
  | step change next ih =>
    intro s
    obtain hwait | ⟨s', b, hs, hmove, hnext⟩ := h s
    · exact .inl hwait
    · exact .inr ⟨s', b, hs, hmove, ih s hnext⟩

theorem Follows.bind {t : Task σ α} {f : α → Task σ β} {a : π} {post : Outcome β → π → Prop}
    (h : t.Follows P a fun r b =>
      match r with
      | .ok x => (f x).Follows P b post
      | .error fault => post (.error fault) b) :
    (t.bind f).Follows P a post := by
  induction t generalizing a with
  | done r =>
    cases r with
    | ok x => exact h
    | error fault => exact h
  | look next ih => exact fun raised => ih raised (h raised)
  | step change next ih =>
    intro s
    obtain ⟨hnone, hwait⟩ | ⟨s', b, hs, hmove, hnext⟩ := h s
    · exact .inl ⟨hnone, hwait⟩
    · exact .inr ⟨s', b, hs, hmove, ih s hnext⟩

theorem Follows.caught_bind {t : Task σ α} {f : Outcome α → Task σ β} {a : π}
    {post : Outcome β → π → Prop} (h : t.Follows P a fun r b => (f r).Follows P b post) :
    (t.caught.bind f).Follows P a post := by
  induction t generalizing a with
  | done r => exact h
  | look next ih => exact fun raised => ih raised (h raised)
  | step change next ih =>
    intro s
    obtain ⟨hnone, hwait⟩ | ⟨s', b, hs, hmove, hnext⟩ := h s
    · exact .inl ⟨hnone, hwait⟩
    · exact .inr ⟨s', b, hs, hmove, ih s hnext⟩

theorem follows_check {a : π} {post : Outcome Unit → π → Prop}
    (hraised : post (.error .cancelled) a) (hok : post (.ok ()) a) : check.Follows P a post := by
  intro raised
  cases raised
  · exact hok
  · exact hraised

theorem follows_act {change : σ → σ} {a b : π} {post : Outcome Unit → π → Prop}
    (hmove : ∀ s, P.moves a s b (change s)) (h : post (.ok ()) b) :
    (act change).Follows P a post :=
  fun s => .inr ⟨change s, b, rfl, hmove s, h⟩

theorem follows_await {change : σ → Option σ} {a b : π} {post : Outcome Unit → π → Prop}
    (hwait : ∀ s, change s = none → P.waits a s)
    (hmove : ∀ s s', change s = some s' → P.moves a s b s') (h : post (.ok ()) b) :
    (await change).Follows P a post := by
  intro s
  cases hs : change s with
  | none => exact .inl ⟨rfl, hwait s hs⟩
  | some s' => exact .inr ⟨s', b, rfl, hmove s s' hs, h⟩

/-- A task that never waits, on a part of the state that the protocol leaves open. -/
theorem Untied.follows {P : Protocol π τ} {get : τ → σ} {set : τ → σ → τ} {t : Task σ α}
    {free : σ → Nat} {a : π} {post : Outcome α → π → Prop} (h : t.Untied free)
    (hmove : ∀ u s, P.moves a u a (set u s)) (hpost : ∀ r, post r a) :
    (t.within get set).Follows P a post := by
  induction t with
  | done r => exact hpost r
  | look next ih => exact fun raised => ih raised (h raised)
  | step change next ih =>
    intro u
    obtain ⟨s', hs, -, hnext⟩ := h (get u)
    exact .inr ⟨set u s', a, by simp only [hs, Option.map_some], hmove u s', ih (get u) hnext⟩

/-- A task that holds as many permits as its progress says accounts for them. -/
theorem Follows.balanced {t : Task σ α} {a : π} {post : Outcome α → π → Prop} {free : σ → Nat}
    {held : π → Nat} (h : t.Follows P a post)
    (hmove : ∀ a s b s', P.moves a s b s' → free s' + held b = free s + held a)
    (hwait : ∀ a s, P.waits a s → held a = 0 ∧ free s = 0)
    (hpost : ∀ r a, post r a → held a = 0) : t.Balanced free (held a) := by
  induction t generalizing a with
  | done r => exact hpost r a h
  | look next ih => exact fun raised => ih raised (h raised)
  | step change next ih =>
    intro s
    obtain ⟨hnone, hw⟩ | ⟨s', b, hs, hm, hnext⟩ := h s
    · exact .inl ⟨hnone, hwait a s hw⟩
    · exact .inr ⟨s', held b, hs, hmove a s b s' hm, ih s hnext⟩

end Task

/-! ## Sums over tasks -/

/-- A quantity of each task, summed up. -/
def tally (count : Nat) (weight : π → Nat) (progress : Nat → π) : Nat :=
  ∑ i ∈ Finset.range count, weight (progress i)

theorem tally_le {weight weight' : π → Nat} (h : ∀ a, weight a ≤ weight' a) (count : Nat)
    (progress : Nat → π) : tally count weight progress ≤ tally count weight' progress := by
  apply Finset.sum_le_sum
  intro i _
  exact h (progress i)

theorem tally_update {count i : Nat} (weight : π → Nat) (progress : Nat → π) (a : π)
    (hi : i < count) :
    tally count weight (Function.update progress i a) + weight (progress i) =
      tally count weight progress + weight a := by
  have hmem : i ∈ Finset.range count := Finset.mem_range.2 hi
  have hothers : ∀ j ∈ (Finset.range count).erase i,
      weight (Function.update progress i a j) = weight (progress j) := by
    intro j hj
    rw [Function.update_of_ne (Finset.ne_of_mem_erase hj)]
  have hold := Finset.add_sum_erase (Finset.range count) (fun j => weight (progress j)) hmem
  have hnew := Finset.add_sum_erase (Finset.range count)
    (fun j => weight (Function.update progress i a j)) hmem
  rw [Finset.sum_congr rfl hothers] at hnew
  simp only [Function.update_self] at hnew
  simp only [tally]
  omega

theorem tally_eq_zero {count : Nat} {weight : π → Nat} {progress : Nat → π}
    (h : ∀ i, i < count → weight (progress i) = 0) : tally count weight progress = 0 := by
  apply Finset.sum_eq_zero
  intro i hi
  exact h i (Finset.mem_range.1 hi)

theorem tally_eq_sum {count : Nat} {weight : π → Nat} {progress : Nat → π} {results : List β}
    {quantity : β → Nat} (hlength : results.length = count)
    (h : ∀ i r, results[i]? = some r → weight (progress i) = quantity r) :
    tally count weight progress = (results.map quantity).sum := by
  induction results generalizing count progress with
  | nil =>
    subst hlength
    rfl
  | cons r rest ih =>
    subst hlength
    have hrest : tally rest.length weight (fun i => progress (i + 1)) = (rest.map quantity).sum :=
      ih rfl fun i r' hr => h (i + 1) r' hr
    have hfirst : weight (progress 0) = quantity r := h 0 r rfl
    simp only [tally] at hrest ⊢
    rw [List.length_cons, Finset.sum_range_succ', hrest, hfirst, List.map_cons, List.sum_cons,
      Nat.add_comm]

/-! ## Pools -/

/-- A member follows its protocol, or it has returned what goes with its progress. -/
def Member.Follows (P : Protocol π σ) (post : Outcome α → π → Prop) (a : π) : Member σ α → Prop
  | .running task => task.Follows P a post
  | .ended r => post r a

/-- The result of a member that has nothing left to do, observed or not. -/
def Member.returned? : Member σ α → Option (Outcome α)
  | .running (.done r) => some r
  | .running _ => none
  | .ended r => some r

theorem Member.Follows.returned {P : Protocol π σ} {post : Outcome α → π → Prop} {a : π}
    {m : Member σ α} {r : Outcome α} (h : m.Follows P post a) (hr : m.returned? = some r) :
    post r a := by
  cases m with
  | ended r' =>
    cases hr
    exact h
  | running t =>
    cases t with
    | done r' =>
      cases hr
      exact h
    | look next => cases hr
    | step change next => cases hr

namespace Pool

/-- The tasks of a pool follow their protocols, and the ledger holds of their progress. -/
structure Follows (P : Nat → Protocol π σ) (post : Nat → Outcome α → π → Prop) (count : Nat)
    (Ledger : (Nat → π) → σ → Prop) (progress : Nat → π) (p : Pool σ α) : Prop where
  length : p.members.length = count
  member : ∀ (i : Nat) (m : Member σ α), p.members[i]? = some m →
    m.Follows (P i) (post i) (progress i)
  ledger : Ledger progress p.state

/-- The moves of every task of a pool keep a ledger. -/
def Keeps (P : Nat → Protocol π σ) (count : Nat) (Ledger : (Nat → π) → σ → Prop) : Prop :=
  ∀ progress s i b s', i < count → Ledger progress s → (P i).moves (progress i) s b s' →
    Ledger (Function.update progress i b) s'

variable {P : Nat → Protocol π σ} {post : Nat → Outcome α → π → Prop} {count : Nat}
  {Ledger : (Nat → π) → σ → Prop} {progress : Nat → π} {p p' : Pool σ α}

theorem follows_start {tasks : List (Task σ α)} {s : σ}
    (h : ∀ (i : Nat) (t : Task σ α), tasks[i]? = some t →
      t.Follows (P i) (progress i) (post i))
    (hledger : Ledger progress s) :
    (start tasks s).Follows P post tasks.length Ledger progress where
  length := by simp [start]
  member i m hm := by
    simp only [start, List.getElem?_map, Option.map_eq_some_iff] at hm
    obtain ⟨t, ht, rfl⟩ := hm
    exact h i t ht
  ledger := hledger

theorem Follows.set (h : p.Follows P post count Ledger progress) {i : Nat} {b : π}
    {m : Member σ α} {raised : Bool} {s : σ} (hi : i < count)
    (hm : m.Follows (P i) (post i) b) (hledger : Ledger (Function.update progress i b) s) :
    Pool.Follows P post count Ledger (Function.update progress i b)
      ⟨p.members.set i m, raised, s⟩ := by
  have hlength := h.length
  refine ⟨by simp [hlength], ?_, hledger⟩
  intro j m' hj
  by_cases hij : j = i
  · subst hij
    simp only [List.getElem?_set, hlength, hi, if_true, Option.some.injEq] at hj
    subst hj
    simpa using hm
  · rw [List.getElem?_set_ne (Ne.symm hij)] at hj
    simpa [Function.update_of_ne hij] using h.member j m' hj

/-- One step of a pool is progress of one task. -/
theorem Follows.step (hkeep : Keeps P count Ledger) (h : p.Follows P post count Ledger progress)
    {i : Nat} (hstep : p.step? i = some p') :
    i < count ∧ ∃ b, Follows P post count Ledger (Function.update progress i b) p' := by
  have hlt : ∀ m, p.members[i]? = some m → i < count := by
    intro m hm
    rw [← h.length]
    exact (List.getElem?_eq_some_iff.1 hm).1
  have hsame : Function.update progress i (progress i) = progress := Function.update_eq_self i _
  obtain ⟨r, hm, rfl⟩ | ⟨next, hm, rfl⟩ | ⟨change, next, s, hm, hs, rfl⟩ := step?_cases hstep
  · have hpost : post i r (progress i) := h.member i _ hm
    refine ⟨hlt _ hm, progress i, h.set (hlt _ hm) hpost ?_⟩
    rw [hsame]
    exact h.ledger
  · refine ⟨hlt _ hm, progress i, h.set (hlt _ hm) (h.member i _ hm p.raised) ?_⟩
    rw [hsame]
    exact h.ledger
  · obtain ⟨hnone, -⟩ | ⟨s', b, hs', hmove, hnext⟩ := h.member i _ hm p.state
    · rw [hs] at hnone
      cases hnone
    · rw [hs] at hs'
      cases hs'
      exact ⟨hlt _ hm, b, h.set (hlt _ hm) hnext (hkeep _ _ _ _ _ (hlt _ hm) h.ledger hmove)⟩

/-- Every schedule keeps the ledger. -/
theorem Follows.run (hkeep : Keeps P count Ledger) (h : p.Follows P post count Ledger progress)
    (schedule : Schedule) : ∃ progress', Follows P post count Ledger progress' (p.run schedule) := by
  induction schedule generalizing progress p with
  | nil => exact ⟨progress, h⟩
  | cons i rest ih =>
    rw [Pool.run]
    cases hstep : p.step? i with
    | none => exact ih h
    | some p' =>
      obtain ⟨-, b, hb⟩ := h.step hkeep hstep
      exact ih hb

theorem Follows.finish (hkeep : Keeps P count Ledger)
    (h : p.Follows P post count Ledger progress) :
    ∃ progress', Follows P post count Ledger progress' p.finish := by
  obtain ⟨schedule, hschedule⟩ := p.finish_eq_run
  rw [hschedule]
  exact h.run hkeep schedule

end Pool

/-! ## What tasks come to side by side -/

theorem collect_eq_ok {results : List (Outcome α)} {values : List α}
    (h : collect results = .ok values) : results = values.map .ok := by
  have hvalues : List.Forall₂ (fun r v => id r = .ok v) results values := by
    unfold collect at h
    split at h
    · cases h
    · exact mapM_eq_ok.1 h
  clear h
  induction hvalues with
  | nil => rfl
  | cons hr _ ih => rw [List.map_cons, ← ih, ← hr, id]

/-- Tasks in the end, if their steps interleave as a schedule says. -/
def Pool.finished (schedule : Schedule) (tasks : List (Task σ α)) (s : σ) : Pool σ α :=
  ((Pool.start tasks s).run schedule).finish

/-- All tasks return; what they have done to the state is in the ledger, and their results go with
their progress. -/
theorem Pool.finished_follows {P : Nat → Protocol π σ} {post : Nat → Outcome α → π → Prop} {count : Nat}
    {Ledger : (Nat → π) → σ → Prop} {progress : Nat → π} {tasks : List (Task σ α)} {s : σ}
    {free : σ → Nat} (hkeep : Pool.Keeps P count Ledger)
    (h : (Pool.start tasks s).Follows P post count Ledger progress)
    (hbalanced : ∀ t ∈ tasks, t.Balanced free 0) (hfree : 0 < free s) (schedule : Schedule) :
    ∃ progress', (finished schedule tasks s).results.length = count ∧
      Ledger progress' (finished schedule tasks s).state ∧
      ∀ i r, (finished schedule tasks s).results[i]? = some r → post i r (progress' i) := by
  obtain ⟨progress₁, hrun⟩ := h.run hkeep schedule
  obtain ⟨progress', hfinish⟩ := hrun.finish hkeep
  obtain ⟨held, haccounts⟩ := (Pool.accounts_start (s := s) hbalanced).run schedule
  have hended := haccounts.ended_finish hfree
  rw [← Pool.length_finish] at hended
  refine ⟨progress', ?_, hfinish.ledger, ?_⟩
  · rw [← hfinish.length]
    conv => rhs; rw [Pool.members_of_ended hended]
    simp [finished]
  · intro i r hr
    exact hfinish.member i _ ((Pool.getElem?_results hended i r).1 hr)

end Equijoin
