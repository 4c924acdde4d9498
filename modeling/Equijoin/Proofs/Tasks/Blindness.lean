import Mathlib.Data.Option.Defs
import Equijoin.Proofs.Tasks.Interleaving

/-! # Tasks that cannot tell states apart

Two states may differ in something that no task looks at. Then tasks take the same steps from
either, come to the same results, and leave states that differ in nothing else.

* `Task.Blind`: a task takes the same steps from states that are related.
* `Pool.Matches`: pools whose tasks are blind, in related states.
* `fanOut_blind`: what such tasks come to side by side.
-/

set_option autoImplicit false

namespace Equijoin

variable {σ τ α β : Type} {R : σ → σ → Prop} {s u : σ}

/-! ## Tasks -/

namespace Task

/-- From related states the task takes the same steps, and they lead to related states. -/
def Blind (R : σ → σ → Prop) : Task σ α → Prop
  | done _ => True
  | look next => ∀ raised, (next raised).Blind R
  | step change next => ∀ s u, R s u →
    Option.Rel R (change s) (change u) ∧ next s = next u ∧ (next s).Blind R

theorem blind_done (r : Outcome α) : (done r : Task σ α).Blind R := trivial

theorem Blind.bind {t : Task σ α} {f : α → Task σ β} (h : t.Blind R) (hf : ∀ a, (f a).Blind R) :
    (t.bind f).Blind R := by
  induction t with
  | done r =>
    cases r with
    | ok a => exact hf a
    | error fault => exact trivial
  | look next ih => exact fun raised => ih raised (h raised)
  | step change next ih =>
    intro s u hsu
    obtain ⟨hchange, hnext, hblind⟩ := h s u hsu
    exact ⟨hchange, congrArg (fun t => t.bind f) hnext, ih s hblind⟩

theorem Blind.caught {t : Task σ α} (h : t.Blind R) : t.caught.Blind R := by
  induction t with
  | done r => exact trivial
  | look next ih => exact fun raised => ih raised (h raised)
  | step change next ih =>
    intro s u hsu
    obtain ⟨hchange, hnext, hblind⟩ := h s u hsu
    exact ⟨hchange, congrArg Task.caught hnext, ih s hblind⟩

theorem blind_check : (check : Task σ Unit).Blind R := by
  intro raised
  cases raised <;> exact trivial

theorem blind_act {change : σ → σ} (h : ∀ s u, R s u → R (change s) (change u)) :
    (act change).Blind R :=
  fun s u hsu => ⟨.some (h s u hsu), rfl, trivial⟩

theorem blind_await {change : σ → Option σ}
    (h : ∀ s u, R s u → Option.Rel R (change s) (change u)) : (await change).Blind R :=
  fun s u hsu => ⟨h s u hsu, rfl, trivial⟩

/-- Whatever a task does to a part of the state in which related states are equal. -/
theorem blind_within {R : τ → τ → Prop} {get : τ → σ} {set : τ → σ → τ}
    (hget : ∀ s u, R s u → get s = get u) (hset : ∀ s u x, R s u → R (set s x) (set u x))
    (t : Task σ α) : (t.within get set).Blind R := by
  induction t with
  | done r => exact trivial
  | look next ih => exact ih
  | step change next ih =>
    intro s u hsu
    dsimp only
    rw [hget s u hsu]
    refine ⟨?_, rfl, ih _⟩
    cases change (get u) with
    | none => exact .none
    | some x => exact .some (hset s u x hsu)

theorem Blind.finish {t : Task σ α} (h : t.Blind R) (raised : Bool) (hsu : R s u) :
    (t.finish raised s).1 = (t.finish raised u).1 ∧ (t.finish raised s).1.Blind R ∧
      R (t.finish raised s).2 (t.finish raised u).2 := by
  induction t generalizing s u with
  | done r => exact ⟨rfl, trivial, hsu⟩
  | look next ih => exact ih raised (h raised) hsu
  | step change next ih =>
    obtain ⟨hchange, hnext, hblind⟩ := h s u hsu
    rw [Task.finish, Task.finish, ← hnext]
    revert hchange
    cases change s <;> cases change u <;> intro hchange
    · exact ⟨rfl, h, hsu⟩
    · cases hchange
    · cases hchange
    · cases hchange with
      | some hstate => exact ih s hblind hstate

/-- Alone from related states the task comes to the same result. -/
theorem Blind.alone {t : Task σ α} (h : t.Blind R) (hsu : R s u) {raised : Bool} {r : Outcome α}
    {s' : σ} (hs : t.alone raised s = some (r, s')) : ∃ u', t.alone raised u = some (r, u') := by
  obtain ⟨hrest, -, -⟩ := h.finish raised hsu
  unfold Task.alone at hs ⊢
  revert hs hrest
  rcases t.finish raised s with ⟨t₁, s₁⟩
  rcases t.finish raised u with ⟨t₂, u₁⟩
  intro hs hrest
  obtain rfl : t₁ = t₂ := hrest
  cases t₁ with
  | done result =>
    cases hs
    exact ⟨u₁, rfl⟩
  | look next => cases hs
  | step change next => cases hs

end Task

/-! ## Pools -/

/-- What is left of the task takes the same steps from related states. -/
def Member.Blind (R : σ → σ → Prop) : Member σ α → Prop
  | .running task => task.Blind R
  | .ended _ => True

namespace Pool

variable {p q : Pool σ α}

/-- The same tasks have come as far in both pools, and cannot tell the states apart. -/
structure Matches (R : σ → σ → Prop) (p q : Pool σ α) : Prop where
  members : p.members = q.members
  raised : p.raised = q.raised
  state : R p.state q.state
  blind : ∀ m ∈ p.members, m.Blind R

theorem matches_start {tasks : List (Task σ α)} (h : ∀ t ∈ tasks, t.Blind R) (hsu : R s u) :
    (start tasks s).Matches R (start tasks u) where
  members := rfl
  raised := rfl
  state := hsu
  blind m hm := by
    obtain ⟨t, ht, rfl⟩ := List.mem_map.1 hm
    exact h t ht

theorem Matches.set (h : p.Matches R q) {m : Member σ α} (hm : m.Blind R) (hsu : R s u)
    (raised : Bool) (i : Nat) :
    Pool.Matches R ⟨p.members.set i m, raised, s⟩ ⟨p.members.set i m, raised, u⟩ where
  members := rfl
  raised := rfl
  state := hsu
  blind m' hm' := by
    obtain hmem | rfl := List.mem_or_eq_of_mem_set hm'
    · exact h.blind m' hmem
    · exact hm

theorem Matches.step (h : p.Matches R q) (i : Nat) :
    Option.Rel (Matches R) (p.step? i) (q.step? i) := by
  unfold step?
  rw [← h.members, ← h.raised]
  cases hm : p.members[i]? with
  | none => exact .none
  | some m =>
    have hblind := h.blind m (List.mem_of_getElem? hm)
    cases m with
    | ended r => exact .none
    | running t =>
      cases t with
      | done r => exact .some (h.set (m := .ended r) trivial h.state _ i)
      | look next => exact .some (h.set (m := .running _) (hblind p.raised) h.state _ i)
      | step change next =>
        obtain ⟨hchange, hnext, hrest⟩ := hblind p.state q.state h.state
        dsimp only
        rw [← hnext]
        revert hchange
        cases change p.state <;> cases change q.state <;> intro hchange
        · exact .none
        · cases hchange
        · cases hchange
        · cases hchange with
          | some hstate => exact .some (h.set (m := .running _) hrest hstate _ i)

theorem Matches.run (h : p.Matches R q) (schedule : Schedule) :
    (p.run schedule).Matches R (q.run schedule) := by
  induction schedule generalizing p q with
  | nil => exact h
  | cons i rest ih =>
    apply ih
    have hstep := h.step i
    revert hstep
    cases p.step? i <;> cases q.step? i <;> intro hstep
    · exact h
    · cases hstep
    · cases hstep
    · cases hstep with
      | some hnext => exact hnext

theorem Matches.settle (h : p.Matches R q) (i : Nat) : (p.settle i).Matches R (q.settle i) := by
  unfold Pool.settle
  rw [← h.members, ← h.raised]
  cases hm : p.members[i]? with
  | none => exact h
  | some m =>
    have hblind := h.blind m (List.mem_of_getElem? hm)
    cases m with
    | ended r => exact h
    | running t =>
      obtain ⟨htask, hrest, hstate⟩ := Task.Blind.finish hblind p.raised h.state
      revert htask hrest hstate
      dsimp only
      rcases t.finish p.raised p.state with ⟨t₁, s₁⟩
      rcases t.finish p.raised q.state with ⟨t₂, s₂⟩
      rintro htask hrest hstate
      obtain rfl : t₁ = t₂ := htask
      cases t₁ with
      | done r => exact h.set (m := .ended r) trivial hstate _ i
      | look next => exact h.set (m := .running (.look next)) hrest hstate _ i
      | step change next => exact h.set (m := .running (.step change next)) hrest hstate _ i

theorem Matches.sweep (h : p.Matches R q) : p.sweep.Matches R q.sweep := by
  have hfold : ∀ is : List Nat, ∀ {p q : Pool σ α}, p.Matches R q →
      (is.foldl Pool.settle p).Matches R (is.foldl Pool.settle q) := by
    intro is
    induction is with
    | nil => exact fun h => h
    | cons i is ih => exact fun h => ih (h.settle i)
  unfold Pool.sweep
  rw [← h.members]
  exact hfold _ h

end Pool

/-- Tasks that cannot tell states apart come to the same side by side. -/
theorem fanOut_blind {tasks : List (Task σ α)} (h : ∀ t ∈ tasks, t.Blind R) (hsu : R s u)
    (schedule : Schedule) :
    (fanOut schedule tasks s).1 = (fanOut schedule tasks u).1 ∧
      R (fanOut schedule tasks s).2 (fanOut schedule tasks u).2 := by
  have hmatch := ((Pool.matches_start h hsu).run schedule).sweep.sweep
  refine ⟨?_, hmatch.state⟩
  unfold fanOut Pool.results Pool.finish
  dsimp only
  rw [hmatch.members]

end Equijoin
