import Equijoin.Proofs.Runs.Anatomy

/-! # What follows the tasks of a run

The parts of a run that are not tasks only depend on what stands where.

* `Concur`: two outcomes with the same result, and the same files.
* `assembleParts_concur`, `publishOutput_concur`: the last parts of a run, from the same files.
-/

set_option autoImplicit false

namespace Equijoin

open FileTree

variable {α β : Type}

/-- The same result, and the same files. -/
def Concur (x y : Outcome α × Session) : Prop :=
  x.1 = y.1 ∧ Same x.2.files y.2.files

namespace Concur

variable {x y z : Outcome α × Session}

theorem trans (h : Concur x y) (h' : Concur y z) : Concur x z :=
  ⟨h.1.trans h'.1, h.2.trans h'.2⟩

theorem symm (h : Concur x y) : Concur y x := ⟨h.1.symm, h.2.symm⟩

theorem bind {p q : Phase α} {f g : α → Phase β} {s u : Session} (h : Concur (p s) (q u))
    (hrest : ∀ a v w, p s = (.ok a, v) → q u = (.ok a, w) → Same v.files w.files →
      Concur (f a v) (g a w)) :
    Concur ((p >>= f) s) ((q >>= g) u) := by
  rcases hp : p s with ⟨r, v⟩
  rcases hq : q u with ⟨r', w⟩
  rw [hp, hq] at h
  obtain ⟨hr, hfiles⟩ := h
  obtain rfl : r = r' := hr
  cases r with
  | ok a =>
    rw [Phase.bind_of_ok hp, Phase.bind_of_ok hq]
    exact hrest a v w hp hq hfiles
  | error fault =>
    rw [Phase.bind_of_error hp, Phase.bind_of_error hq]
    exact ⟨rfl, hfiles⟩

theorem change {f g : Session → Session} {s u : Session} (hf : (f s).files = s.files)
    (hg : (g u).files = u.files) (h : Same s.files u.files) :
    Concur (Phase.change f s) (Phase.change g u) := by
  refine ⟨rfl, ?_⟩
  show Same (f s).files (g u).files
  rw [hf, hg]
  exact h

theorem ofOutcome {s u : Session} (r : Outcome α) (h : Same s.files u.files) :
    Concur (Phase.ofOutcome r s) (Phase.ofOutcome r u) := ⟨rfl, h⟩

theorem onFiles {f : FileTree → Outcome α × FileTree} {s u : Session}
    (h : (f s.files).1 = (f u.files).1 ∧ Same (f s.files).2 (f u.files).2) :
    Concur (Phase.onFiles f s) (Phase.onFiles f u) := h

end Concur

/-! ## Assembly and publication -/

variable {t u : FileTree}

theorem agreeOn_stagingPlace (h : Same t u) (path : String) :
    t.stagingPlace path = u.stagingPlace path :=
  (h.mono fun _ _ => trivial).freshPlace_eq h.nextSerial _ _

theorem agreeOn_partTexts (h : Same t u) (columns : List String) (parts : List Part) :
    partTexts t columns parts = partTexts u columns parts := by
  induction parts with
  | nil => rfl
  | cons part rest ih =>
    have hread : t.read part.path = u.read part.path := h.read part.path.seen_all
    simp only [partTexts, hread, ih]

theorem assembleParts_concur (h : Same t u) (parts : List Part) (path : String) :
    (assembleParts parts path t).1 = (assembleParts parts path u).1 ∧
      Same (assembleParts parts path t).2 (assembleParts parts path u).2 := by
  have hsame : Alike (fun x y => x.1 = y.1 ∧ Same x.2 y.2) (assemble parts path t)
      (assemble parts path u) := by
    unfold assemble
    dsimp only
    split
    · exact rfl
    · rw [agreeOn_stagingPlace h]
      cases (u.stagingPlace path).mapError Fault.io with
      | error fault => exact rfl
      | ok staged =>
        rename_i first rest _
        simp only [ok_bind, assembledText, agreeOn_partTexts h]
        cases partTexts u first.columns (parts.mergeSort fun p q => p.index.ble q.index) with
        | error fault => exact rfl
        | ok text => exact ⟨rfl, h.put staged _⟩
  unfold assembleParts
  cases ht : assemble parts path t with
  | ok x =>
    obtain ⟨y, hy, hassembled, hfiles⟩ := hsame.ok ht
    rw [hy]
    exact ⟨congrArg Except.ok hassembled, hfiles⟩
  | error fault =>
    rw [hsame.error ht]
    exact ⟨rfl, h⟩

theorem commit_concur (h : Same t u) (staged : Location) (path : String) :
    (commit staged path t).1 = (commit staged path u).1 ∧
      Same (commit staged path t).2 (commit staged path u).2 := by
  have hsame : Alike Same (t.publish staged path) (u.publish staged path) := by
    unfold publish
    rw [(h.mono fun _ _ => trivial : AgreeOn Location.Spelled t u).destination path]
    cases u.destination path with
    | error fault => exact rfl
    | ok target =>
      rw [ok_bind, ok_bind, h.node? trivial]
      split
      · exact (h.erase staged).put target _
      · exact rfl
      · exact rfl
  unfold commit
  cases ht : t.publish staged path with
  | ok t' =>
    obtain ⟨u', hu, h'⟩ := hsame.ok ht
    rw [hu]
    exact ⟨rfl, h'⟩
  | error fault =>
    rw [hsame.error ht]
    exact ⟨rfl, h.erase staged⟩

theorem publishOutput_concur (h : Same t u) (merged : Schema) (output : Output) (a : Assembled) :
    (publishOutput merged output a t).1 = (publishOutput merged output a u).1 ∧
      Same (publishOutput merged output a t).2 (publishOutput merged output a u).2 := by
  unfold publishOutput
  cases merged.reconcile a.columns with
  | error fault => exact ⟨rfl, h.erase a.staged⟩
  | ok descriptor =>
    have hstage : Alike (fun x y => x.1 = y.1 ∧ Same x.2 y.2)
        (stageDescriptor descriptor output.schemaPath t)
        (stageDescriptor descriptor output.schemaPath u) := by
      unfold stageDescriptor stage
      rw [agreeOn_stagingPlace h]
      cases u.stagingPlace output.schemaPath with
      | error fault => exact rfl
      | ok l => exact ⟨rfl, h.put l _⟩
    dsimp only
    cases ht : stageDescriptor descriptor output.schemaPath t with
    | error fault =>
      rw [hstage.error ht]
      exact ⟨rfl, h.erase a.staged⟩
    | ok x =>
      obtain ⟨⟨staged, u₁⟩, hu, hstaged, h₁⟩ := hstage.ok ht
      obtain ⟨staged', t₁⟩ := x
      obtain rfl : staged' = staged := hstaged
      rw [hu]
      dsimp only
      obtain ⟨hr, h₂⟩ := commit_concur h₁ a.staged output.dataPath
      rcases hc : commit a.staged output.dataPath t₁ with ⟨r, t₂⟩
      rcases hd : commit a.staged output.dataPath u₁ with ⟨r', u₂⟩
      rw [hc, hd] at hr h₂
      obtain rfl : r = r' := hr
      cases r with
      | error fault => exact ⟨rfl, AgreeOn.erase h₂ staged'⟩
      | ok done =>
        dsimp only
        obtain ⟨hr, h₃⟩ := commit_concur h₂ staged' output.schemaPath
        rcases hc : commit staged' output.schemaPath t₂ with ⟨r, t₃⟩
        rcases hd : commit staged' output.schemaPath u₂ with ⟨r', u₃⟩
        rw [hc, hd] at hr h₃
        obtain rfl : r = r' := hr
        cases r with
        | error fault => exact ⟨rfl, h₃⟩
        | ok done => exact ⟨rfl, h₃⟩

theorem emitOutput_concur {s v : Session} (h : Same s.files v.files) (merged : Schema)
    (output : Output) (parts : List Part) :
    Concur (emitOutput merged output parts s) (emitOutput merged output parts v) := by
  unfold emitOutput
  refine Concur.bind (Concur.change rfl rfl h) fun _ _ _ hs hv _ => ?_
  cases hs
  cases hv
  refine Concur.bind (Concur.onFiles (assembleParts_concur h parts _)) fun a _ _ _ _ h => ?_
  refine Concur.bind (Concur.change rfl rfl h) fun _ _ _ hs hv h => ?_
  refine Concur.bind (Concur.change rfl rfl h) fun _ _ _ hs hv h => ?_
  refine Concur.bind (Concur.onFiles (publishOutput_concur h merged output a))
    fun d _ _ _ _ h => ?_
  exact Concur.bind (Concur.change rfl rfl h) fun _ _ _ _ _ h => ⟨rfl, h⟩

end Equijoin
