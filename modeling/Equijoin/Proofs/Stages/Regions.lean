import Equijoin.Proofs.Files.Views
import Equijoin.Proofs.Tasks.Interleaving
import Equijoin.Run

/-! # Tasks that own some of the files

Each task of a stage has files of its own, and looks at nothing that another one owns.

* `Region`: the footing of a task by what each task owns. `region_apart`: the footings of a stage
  are apart.
* `Footing.onFiles`: the same for tasks on a session.
* rules for the steps that tasks on files and on sessions take.
-/

set_option autoImplicit false

namespace Equijoin

open FileTree

variable {α β σ : Type}

/-! ## Regions -/

/-- No task but the one of the given number owns the location. -/
def Unowned (owns : Nat → Location → Prop) (i : Nat) (l : Location) : Prop :=
  ∀ j, j ≠ i → ¬ owns j l

/-- A task sees what no other one owns, and changes what it owns itself. -/
def Region (owns : Nat → Location → Prop) (i : Nat) : Footing FileTree where
  agrees := AgreeOn (Unowned owns i)
  moves := AgreeOn fun l => ¬ owns i l

/-- A footing on the files of a session. -/
def Footing.onFiles (F : Footing FileTree) : Footing Session := F.within Session.files

theorem region_apart (owns : Nat → Location → Prop) :
    Footing.Apart fun i => (Region owns i).onFiles :=
  fun i _ hij _ _ _ hmove hagree => hagree.trans (hmove.mono fun _ hl => hl i hij)

variable {owns : Nat → Location → Prop} {i : Nat}

theorem region_refl (i : Nat) (s : Session) : (Region owns i).onFiles.agrees s s :=
  AgreeOn.refl _ _

theorem region_agrees {s u : Session} (h : Same s.files u.files) (i : Nat) :
    (Region owns i).onFiles.agrees s u :=
  h.mono fun _ _ => trivial

/-! ## Steps -/

namespace Footing

variable {F : Footing σ}

theorem ensures_done_bind {r : Outcome α} {f : α → Task σ β} {s : σ}
    {post : Outcome β → σ → Prop} (hr : r ≠ .error .cancelled)
    (hok : ∀ a, r = .ok a → F.Ensures (f a) s post)
    (herror : ∀ fault, r = .error fault → post (.error fault) s) :
    F.Ensures ((Task.done r).bind f) s post := by
  refine Ensures.bind ⟨hr, ?_⟩
  cases r with
  | ok a => exact hok a rfl
  | error fault => exact herror fault rfl

theorem ensures_check_bind {f : Unit → Task σ β} {s : σ} {post : Outcome β → σ → Prop}
    (h : F.Ensures (f ()) s post) : F.Ensures (Task.check.bind f) s post :=
  Ensures.bind (ensures_check h)

end Footing

theorem ensures_read {f : FileTree → Task FileTree β} {t : FileTree}
    {post : Outcome β → FileTree → Prop}
    (hsame : ∀ u, AgreeOn (Unowned owns i) t u → f u = f t)
    (h : (Region owns i).Ensures (f t) t post) :
    (Region owns i).Ensures (Task.read.bind f) t post :=
  Footing.ensures_read_bind (fun u => AgreeOn.refl _ u) hsame h

theorem ensures_onFiles {task : Task FileTree α} {s : Session} {post : Outcome α → Session → Prop}
    (h : (Region owns i).Ensures task s.files fun r files => post r (s.withFiles files)) :
    (Region owns i).onFiles.Ensures task.onFiles s post := by
  exact @Footing.Ensures.within _ _ α (Region owns i) Session.files Session.withFiles
    (fun _ _ => rfl) (fun _ _ _ => rfl) (fun _ => rfl) task s post h

theorem ensures_aside {change : Session → Session} {s : Session}
    {post : Outcome Unit → Session → Prop} (hfiles : ∀ a, (change a).files = a.files)
    (h : post (.ok ()) (change s)) :
    (Region owns i).onFiles.Ensures (Task.act change) s post := by
  refine Footing.ensures_act (fun a => ?_) (fun a ha => ?_) h
  · show AgreeOn _ a.files (change a).files
    rw [hfiles]
    exact AgreeOn.refl _ _
  · show AgreeOn _ (change s).files (change a).files
    rw [hfiles, hfiles]
    exact ha

theorem ensures_write {change : FileTree → Outcome FileTree} {t : FileTree}
    {post : Outcome Unit → FileTree → Prop}
    (hmoves : ∀ u u', change u = .ok u' → AgreeOn (fun l => ¬ owns i l) u u')
    (hsame : ∀ u, AgreeOn (Unowned owns i) t u →
      Alike (AgreeOn (Unowned owns i)) (change t) (change u))
    (hne : change t ≠ .error .cancelled)
    (hok : ∀ t', change t = .ok t' → post (.ok ()) t')
    (herror : ∀ fault, change t = .error fault → post (.error fault) t) :
    (Region owns i).Ensures (Task.attempt change) t post :=
  Footing.ensures_attempt (fun u => AgreeOn.refl _ u) hmoves hsame hok fun fault hf =>
    ⟨fun hc => hne (by rw [hf, hc]), herror fault hf⟩

/-! ## Permits -/

variable {free : Session → Nat}

theorem untied_onFiles {task : Task FileTree α} (h : task.Untied fun _ => 0)
    (hfree : ∀ s files, free (s.withFiles files) = free s) : task.onFiles.Untied free :=
  h.within hfree

theorem untied_emit {e : Event} (h : ∀ s : Session, free (s.emit e) = free s) :
    (Task.emit e).Untied free := Task.untied_act h

theorem untied_count {change : Metrics → Metrics}
    (h : ∀ (s : Session) (m : Metrics), free { s with metrics := m } = free s) :
    (Task.count change).Untied free := Task.untied_act fun s => h s _

end Equijoin
