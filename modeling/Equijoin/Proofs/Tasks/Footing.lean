import Equijoin.Proofs.Outcomes
import Equijoin.Task

/-! # What a task comes to among other tasks

A task reads and changes a state that other tasks change too. What it does on its own is what it
does among the others if they leave alone what it looks at.

* `Footing`: what a task can tell apart, and what its steps may change.
* `Footing.Always`: whatever the flag and the state are, the steps of a task keep to its footing and
  its result has a property.
* `Footing.Ensures`: a task that runs alone from a state comes to a result and a state with a
  property, and so it does, step by step, from all states that it cannot tell from that one. Where
  it finds the flag raised it comes to a cancellation.
* One rule for every way in which tasks are built, so that a property of a task is found by going
  through its definition.
-/

set_option autoImplicit false

namespace Equijoin

variable {σ τ α β : Type}

/-! ## The equations of tasks -/

namespace Task

@[simp] theorem bind_eq (t : Task σ α) (f : α → Task σ β) : (t >>= f) = t.bind f := rfl

@[simp] theorem pure_eq (a : α) : (pure a : Task σ α) = done (.ok a) := rfl

@[simp] theorem succeed_eq (a : α) : (succeed a : Task σ α) = done (.ok a) := rfl

@[simp] theorem fail_eq (fault : Fault) : (fail fault : Task σ α) = done (.error fault) := rfl

@[simp] theorem ofOutcome_eq (r : Outcome α) : (ofOutcome r : Task σ α) = done r := rfl

@[simp] theorem done_ok_bind (a : α) (f : α → Task σ β) : (done (.ok a)).bind f = f a := rfl

@[simp] theorem done_error_bind (fault : Fault) (f : α → Task σ β) :
    (done (.error fault)).bind f = done (.error fault) := rfl

@[simp] theorem look_bind (next : Bool → Task σ α) (f : α → Task σ β) :
    (look next).bind f = look fun raised => (next raised).bind f := rfl

@[simp] theorem step_bind (change : σ → Option σ) (next : σ → Task σ α) (f : α → Task σ β) :
    (step change next).bind f = step change fun s => (next s).bind f := rfl

@[simp] theorem done_caught (r : Outcome α) : (done r : Task σ α).caught = done (.ok r) := rfl

@[simp] theorem alone_done (raised : Bool) (r : Outcome α) (s : σ) :
    (done r).alone raised s = some (r, s) := rfl

@[simp] theorem alone_look (raised : Bool) (next : Bool → Task σ α) (s : σ) :
    (look next).alone raised s = (next raised).alone raised s := rfl

theorem alone_step (raised : Bool) {change : σ → Option σ} (next : σ → Task σ α) {s s' : σ}
    (h : change s = some s') : (step change next).alone raised s = (next s).alone raised s' := by
  simp only [alone, finish, h]

theorem alone_bind {t : Task σ α} {f : α → Task σ β} {raised : Bool} {s s' : σ} {a : α}
    (h : t.alone raised s = some (.ok a, s')) :
    (t.bind f).alone raised s = (f a).alone raised s' := by
  induction t generalizing s with
  | done r =>
    cases h
    rfl
  | look next ih => exact ih raised h
  | step change next ih =>
    cases hs : change s with
    | none => simp [alone, finish, hs] at h
    | some u =>
      rw [alone_step raised next hs] at h
      rw [step_bind, alone_step raised _ hs]
      exact ih s h

end Task

/-! ## Footings -/

/-- How a task stands to a state that it shares with others. -/
structure Footing (σ : Type) where
  /-- The task cannot tell the second state from the first. -/
  agrees : σ → σ → Prop
  /-- A step of the task may lead from the first state to the second. -/
  moves : σ → σ → Prop

namespace Footing

/-- Whatever flag and states the task finds, its steps keep to the footing, and its result has the
property. -/
def Always (F : Footing σ) : Task σ α → (Outcome α → Prop) → Prop
  | .done result, post => post result
  | .look next, post => ∀ raised, F.Always (next raised) post
  | .step change next, post =>
    ∀ s, (∀ s', change s = some s' → F.moves s s') ∧ F.Always (next s) post

/-- The task comes from a state, with the flag down, to a result and a state that have the property;
states that it cannot tell apart make no difference. With the flag raised it comes to a
cancellation. -/
def Ensures (F : Footing σ) : Task σ α → σ → (Outcome α → σ → Prop) → Prop
  | .done result, s, post => result ≠ .error .cancelled ∧ post result s
  | .look next, s, post =>
    F.Always (next true) (· = .error .cancelled) ∧ F.Ensures (next false) s post
  | .step change next, s, post =>
    ∃ s', change s = some s' ∧ F.Ensures (next s) s' post ∧
      ∀ a a', F.agrees s a → change a = some a' →
        next a = next s ∧ F.agrees s' a' ∧ F.moves a a'

variable {F : Footing σ}

/-! ## What holds whatever the others do -/

theorem Always.mono {t : Task σ α} {post post' : Outcome α → Prop} (h : F.Always t post)
    (hpost : ∀ r, post r → post' r) : F.Always t post' := by
  induction t with
  | done r => exact hpost r h
  | look next ih => exact fun raised => ih raised (h raised)
  | step change next ih => exact fun s => ⟨(h s).1, ih s (h s).2⟩

theorem Always.bind {t : Task σ α} {f : α → Task σ β} {post : Outcome α → Prop}
    {post' : Outcome β → Prop} (h : F.Always t post)
    (hok : ∀ a, post (.ok a) → F.Always (f a) post')
    (herror : ∀ fault, post (.error fault) → post' (.error fault)) :
    F.Always (t.bind f) post' := by
  induction t with
  | done r =>
    cases r with
    | ok a => exact hok a h
    | error fault => exact herror fault h
  | look next ih => exact fun raised => ih raised (h raised)
  | step change next ih => exact fun s => ⟨(h s).1, ih s (h s).2⟩

theorem Always.cancelled_bind {t : Task σ α} (f : α → Task σ β)
    (h : F.Always t (· = .error .cancelled)) : F.Always (t.bind f) (· = .error .cancelled) :=
  h.bind (fun _ ha => nomatch ha) fun _ hf => by cases hf; rfl

theorem Always.caught {t : Task σ α} {post : Outcome α → Prop} (h : F.Always t post) :
    F.Always t.caught fun r => ∃ r', r = .ok r' ∧ post r' := by
  induction t with
  | done r => exact ⟨r, rfl, h⟩
  | look next ih => exact fun raised => ih raised (h raised)
  | step change next ih => exact fun s => ⟨(h s).1, ih s (h s).2⟩

theorem always_act {change : σ → σ} (hmove : ∀ s, F.moves s (change s)) :
    F.Always (Task.act change) (· = .ok ()) := by
  intro s
  refine ⟨fun s' hs => ?_, rfl⟩
  cases hs
  exact hmove s

/-! ## What a task ensures -/

theorem Ensures.mono {t : Task σ α} {s : σ} {post post' : Outcome α → σ → Prop}
    (h : F.Ensures t s post) (hpost : ∀ r s', post r s' → post' r s') : F.Ensures t s post' := by
  induction t generalizing s with
  | done r => exact ⟨h.1, hpost r s h.2⟩
  | look next ih => exact ⟨h.1, ih false h.2⟩
  | step change next ih =>
    obtain ⟨s', hs, hnext, hstep⟩ := h
    exact ⟨s', hs, ih s hnext, hstep⟩

theorem Ensures.and_uncancelled {t : Task σ α} {s : σ} {post : Outcome α → σ → Prop}
    (h : F.Ensures t s post) : F.Ensures t s fun r s' => r ≠ .error .cancelled ∧ post r s' := by
  induction t generalizing s with
  | done r => exact ⟨h.1, h⟩
  | look next ih => exact ⟨h.1, ih false h.2⟩
  | step change next ih =>
    obtain ⟨s', hs, hnext, hstep⟩ := h
    exact ⟨s', hs, ih s hnext, hstep⟩

/-- A task that runs alone comes to what it ensures. -/
theorem Ensures.alone {t : Task σ α} {s : σ} {post : Outcome α → σ → Prop}
    (h : F.Ensures t s post) :
    ∃ r s', t.alone false s = some (r, s') ∧ r ≠ .error .cancelled ∧ post r s' := by
  induction t generalizing s with
  | done r => exact ⟨r, s, rfl, h.1, h.2⟩
  | look next ih => exact ih false h.2
  | step change next ih =>
    obtain ⟨s', hs, hnext, -⟩ := h
    rw [Task.alone_step false next hs]
    exact ih s hnext

theorem Ensures.and_alone {t : Task σ α} {s : σ} {post : Outcome α → σ → Prop}
    (h : F.Ensures t s post) :
    F.Ensures t s fun r s' => t.alone false s = some (r, s') ∧ post r s' := by
  induction t generalizing s with
  | done r => exact ⟨h.1, rfl, h.2⟩
  | look next ih => exact ⟨h.1, ih false h.2⟩
  | step change next ih =>
    obtain ⟨s', hs, hnext, hstep⟩ := h
    refine ⟨s', hs, (ih s hnext).mono fun r u hu => ?_, hstep⟩
    rw [Task.alone_step false next hs]
    exact hu

/-- Alone from two states that it cannot tell apart, a task comes to one result, and to states that
it cannot tell apart. -/
theorem Ensures.alone_eq {t : Task σ α} {s a : σ} {post post' : Outcome α → σ → Prop}
    (h : F.Ensures t s post) (h' : F.Ensures t a post') (hagree : F.agrees s a) :
    ∃ r s' a', t.alone false s = some (r, s') ∧ t.alone false a = some (r, a') ∧
      F.agrees s' a' := by
  induction t generalizing s a with
  | done r => exact ⟨r, s, a, rfl, rfl, hagree⟩
  | look next ih => exact ih false h.2 h'.2 hagree
  | step change next ih =>
    obtain ⟨s', hs, hnext, hstep⟩ := h
    obtain ⟨a', ha, hnext', -⟩ := h'
    obtain ⟨heq, hagree', -⟩ := hstep a a' hagree ha
    rw [heq] at hnext'
    rw [Task.alone_step false next hs, Task.alone_step false next ha, heq]
    exact ih s hnext hnext' hagree'

theorem Ensures.bind {t : Task σ α} {f : α → Task σ β} {s : σ} {post : Outcome β → σ → Prop}
    (h : F.Ensures t s fun r s' =>
      match r with
      | .ok a => F.Ensures (f a) s' post
      | .error fault => post (.error fault) s') :
    F.Ensures (t.bind f) s post := by
  induction t generalizing s with
  | done r =>
    cases r with
    | ok a => exact h.2
    | error fault => exact ⟨fun e => h.1 (by cases e; rfl), h.2⟩
  | look next ih => exact ⟨h.1.cancelled_bind f, ih false h.2⟩
  | step change next ih =>
    obtain ⟨s', hs, hnext, hstep⟩ := h
    refine ⟨s', hs, ih s hnext, fun a a' hagree ha => ?_⟩
    obtain ⟨heq, hrest⟩ := hstep a a' hagree ha
    exact ⟨by simp only [heq], hrest⟩

/-- A task whose fault is caught; a cancellation must still be one in the end. -/
theorem Ensures.caught_bind {t : Task σ α} {f : Outcome α → Task σ β} {s : σ}
    {post : Outcome β → σ → Prop}
    (hcancelled : F.Always (f (.error .cancelled)) (· = .error .cancelled))
    (h : F.Ensures t s fun r s' => F.Ensures (f r) s' post) :
    F.Ensures (t.caught.bind f) s post := by
  induction t generalizing s with
  | done r => exact h.2
  | look next ih =>
    refine ⟨?_, ih false h.2⟩
    refine h.1.caught.bind ?_ ?_
    · rintro r ⟨r', hr, rfl⟩
      cases hr
      exact hcancelled
    · rintro fault ⟨r', hr, -⟩
      cases hr
  | step change next ih =>
    obtain ⟨s', hs, hnext, hstep⟩ := h
    refine ⟨s', hs, ih s hnext, fun a a' hagree ha => ?_⟩
    obtain ⟨heq, hrest⟩ := hstep a a' hagree ha
    exact ⟨by simp only [heq], hrest⟩

theorem ensures_done {r : Outcome α} {s : σ} {post : Outcome α → σ → Prop}
    (hr : r ≠ .error .cancelled) (h : post r s) : F.Ensures (.done r) s post := ⟨hr, h⟩

theorem ensures_ok {a : α} {s : σ} {post : Outcome α → σ → Prop} (h : post (.ok a) s) :
    F.Ensures (.done (.ok a)) s post := ⟨by simp, h⟩

theorem ensures_check {s : σ} {post : Outcome Unit → σ → Prop} (h : post (.ok ()) s) :
    F.Ensures Task.check s post := ⟨rfl, ensures_ok h⟩

/-- The state is read. What follows must not depend on what the task cannot tell apart. -/
theorem ensures_read_bind {f : σ → Task σ β} {s : σ} {post : Outcome β → σ → Prop}
    (hmove : ∀ a, F.moves a a) (hsame : ∀ a, F.agrees s a → f a = f s)
    (h : F.Ensures (f s) s post) : F.Ensures (Task.read.bind f) s post := by
  refine ⟨s, rfl, h, fun a a' hagree ha => ?_⟩
  cases ha
  exact ⟨hsame a hagree, hagree, hmove a⟩

theorem ensures_act {change : σ → σ} {s : σ} {post : Outcome Unit → σ → Prop}
    (hmove : ∀ a, F.moves a (change a)) (hagree : ∀ a, F.agrees s a → F.agrees (change s) (change a))
    (h : post (.ok ()) (change s)) : F.Ensures (Task.act change) s post := by
  refine ⟨change s, rfl, ensures_ok h, fun a a' ha hc => ?_⟩
  cases hc
  exact ⟨rfl, hagree a ha, hmove a⟩

/-- A change that waits for its turn. Alone the task must not have to wait. -/
theorem ensures_await {change : σ → Option σ} {s s' : σ} {post : Outcome Unit → σ → Prop}
    (hs : change s = some s') (hmove : ∀ a a', change a = some a' → F.moves a a')
    (hagree : ∀ a a', F.agrees s a → change a = some a' → F.agrees s' a')
    (h : post (.ok ()) s') : F.Ensures (Task.await change) s post :=
  ⟨s', hs, ensures_ok h, fun a a' ha hc => ⟨rfl, hagree a a' ha hc, hmove a a' hc⟩⟩

theorem ensures_attempt {change : σ → Outcome σ} {s : σ} {post : Outcome Unit → σ → Prop}
    (hmove : ∀ a, F.moves a a) (hmoves : ∀ a a', change a = .ok a' → F.moves a a')
    (hsame : ∀ a, F.agrees s a → Alike F.agrees (change s) (change a))
    (hok : ∀ s', change s = .ok s' → post (.ok ()) s')
    (herror : ∀ fault, change s = .error fault → fault ≠ .cancelled ∧ post (.error fault) s) :
    F.Ensures (Task.attempt change) s post := by
  cases hs : change s with
  | ok s' =>
    refine ⟨s', by simp only [hs], ensures_done ?_ ?_, fun a a' hagree ha => ?_⟩
    · simp [hs, Except.map]
    · simpa [hs, Except.map] using hok s' hs
    · obtain ⟨b, hb, hagree'⟩ := (hsame a hagree).ok hs
      simp only [hb, Option.some.injEq] at ha
      subst ha
      exact ⟨by simp [hs, hb, Except.map], hagree', hmoves a _ hb⟩
  | error fault =>
    obtain ⟨hne, hpost⟩ := herror fault hs
    refine ⟨s, by simp only [hs], ensures_done ?_ ?_, fun a a' hagree ha => ?_⟩
    · simpa [hs, Except.map] using hne
    · simpa [hs, Except.map] using hpost
    · have hb := (hsame a hagree).error hs
      simp only [hb, Option.some.injEq] at ha
      subst ha
      exact ⟨by simp [hs, hb, Except.map], hagree, hmove a⟩

/-! ## Tasks on a part of the state -/

/-- The footing on a larger state of a task that only knows a part of it. -/
def within (F : Footing σ) (get : τ → σ) : Footing τ where
  agrees t u := F.agrees (get t) (get u)
  moves t u := F.moves (get t) (get u)

section Within

variable {get : τ → σ} {set : τ → σ → τ}

theorem Always.within (hget : ∀ t s, get (set t s) = s) {task : Task σ α}
    {post : Outcome α → Prop} (h : F.Always task post) :
    (F.within get).Always (task.within get set) post := by
  induction task with
  | done r => exact h
  | look next ih => exact fun raised => ih raised (h raised)
  | step change next ih =>
    intro t
    refine ⟨fun t' ht => ?_, ih (get t) (h (get t)).2⟩
    obtain ⟨s', hs, rfl⟩ := Option.map_eq_some_iff.1 ht
    simpa [Footing.within, hget] using (h (get t)).1 s' hs

theorem Ensures.within (hget : ∀ t s, get (set t s) = s)
    (hset : ∀ t s s', set (set t s) s' = set t s') (hself : ∀ t, set t (get t) = t)
    {task : Task σ α} {t : τ} {post : Outcome α → τ → Prop}
    (h : F.Ensures task (get t) fun r s' => post r (set t s')) :
    (F.within get).Ensures (task.within get set) t post := by
  induction task generalizing t with
  | done r => exact ⟨h.1, by simpa only [hself] using h.2⟩
  | look next ih => exact ⟨h.1.within hget, ih false h.2⟩
  | step change next ih =>
    obtain ⟨s', hs, hnext, hstep⟩ := h
    refine ⟨set t s', by simp only [hs, Option.map_some], ih (get t) ?_, fun a a' hagree ha => ?_⟩
    · simpa only [hget, hset] using hnext
    · obtain ⟨b, hb, rfl⟩ := Option.map_eq_some_iff.1 ha
      obtain ⟨heq, hagree', hmove⟩ := hstep (get a) b hagree hb
      refine ⟨by simp only [heq], ?_, ?_⟩
      · simpa [Footing.within, hget] using hagree'
      · simpa [Footing.within, hget] using hmove

end Within

end Footing

end Equijoin
