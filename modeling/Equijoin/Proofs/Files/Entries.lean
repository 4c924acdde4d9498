import Equijoin.Files.FileTree
import Equijoin.Proofs.Outcomes

/-! # Trees by their entries

Two trees that have the same entries at some locations are the same to whoever looks at no others.

* `FileTree.nodeAt?`: what a tree has at a location.
* `FileTree.AgreeOn`: two trees with the same entries at all locations of a kind; `FileTree.Same`:
  at all locations.
* `Location.Spelled`: the locations that paths lead to. A path leads to the same one in trees that
  agree on them, so that the content of a file does not depend on the names that a run gives.
* `FileTree.nodeAt?_fresh`: the name that a run gives next stands nowhere in the tree.
-/

set_option autoImplicit false

namespace Equijoin

/-- No name of the location is one that a run gives. -/
def Location.Spelled (l : Location) : Prop := ∀ serial, Name.fresh serial ∉ l

namespace FileTree

/-- What the tree has at a location. -/
def nodeAt? (t : FileTree) (l : Location) : Option Node := t.entries.lookup l

theorem node?_eq (t : FileTree) (l : Location) :
    t.node? l = if l.all (· == .above) then some .directory else t.nodeAt? l := rfl

/-! ## Entries after a change -/

theorem lookup_filter {β : Type} (p : Location → Bool) (es : List (Location × β)) (l : Location) :
    (es.filter fun e => p e.1).lookup l = if p l then es.lookup l else none := by
  induction es with
  | nil => simp
  | cons e es ih =>
    obtain ⟨k, b⟩ := e
    by_cases hk : l = k
    · subst hk
      by_cases hp : p l = true
      · simp [hp]
      · simp only [List.filter_cons, hp, if_neg, ih, Bool.false_eq_true, not_false_eq_true]
    · have hne : (l == k) = false := by simpa using hk
      by_cases hp : p k = true
      · simp only [List.filter_cons, hp, if_true, List.lookup_cons, hne, ih]
      · simp only [List.filter_cons, hp, Bool.false_eq_true, if_false, List.lookup_cons, hne, ih]

theorem nodeAt?_put (t : FileTree) (k l : Location) (n : Node) :
    (t.put k n).nodeAt? l = if l = k then some n else t.nodeAt? l := by
  unfold nodeAt? put
  rw [List.lookup_cons, lookup_filter (fun m => m != k)]
  by_cases h : l = k
  · subst h; simp
  · have hne : (l == k) = false := by simpa using h
    simp [hne, h]

theorem nodeAt?_erase (t : FileTree) (k l : Location) :
    (t.erase k).nodeAt? l = if l = k then none else t.nodeAt? l := by
  unfold nodeAt? erase
  rw [lookup_filter (fun m => m != k)]
  by_cases h : l = k <;> simp [h]

theorem nodeAt?_eraseBelow (t : FileTree) (k l : Location) :
    (t.eraseBelow k).nodeAt? l = if k.isPrefixOf l then none else t.nodeAt? l := by
  unfold nodeAt? eraseBelow
  rw [lookup_filter (fun m => !k.isPrefixOf m)]
  cases k.isPrefixOf l <;> rfl

@[simp] theorem homeSize_put (t : FileTree) (l : Location) (n : Node) :
    (t.put l n).homeSize = t.homeSize := rfl

@[simp] theorem homeSize_erase (t : FileTree) (l : Location) :
    (t.erase l).homeSize = t.homeSize := rfl

/-! ## Trees that agree -/

/-- The trees have the same entries at all locations of a kind. -/
def AgreeOn (P : Location → Prop) (t u : FileTree) : Prop :=
  t.homeSize = u.homeSize ∧ ∀ l, P l → t.nodeAt? l = u.nodeAt? l

/-- The trees have the same entries. -/
abbrev Same (t u : FileTree) : Prop := AgreeOn (fun _ => True) t u

variable {P Q : Location → Prop} {t u v : FileTree}

theorem AgreeOn.refl (P : Location → Prop) (t : FileTree) : AgreeOn P t t :=
  ⟨rfl, fun _ _ => rfl⟩

theorem AgreeOn.symm (h : AgreeOn P t u) : AgreeOn P u t :=
  ⟨h.1.symm, fun l hl => (h.2 l hl).symm⟩

theorem AgreeOn.trans (h : AgreeOn P t u) (h' : AgreeOn P u v) : AgreeOn P t v :=
  ⟨h.1.trans h'.1, fun l hl => (h.2 l hl).trans (h'.2 l hl)⟩

theorem AgreeOn.mono (h : AgreeOn P t u) (hPQ : ∀ l, Q l → P l) : AgreeOn Q t u :=
  ⟨h.1, fun l hl => h.2 l (hPQ l hl)⟩

theorem AgreeOn.put (h : AgreeOn P t u) (l : Location) (n : Node) :
    AgreeOn P (t.put l n) (u.put l n) := by
  refine ⟨h.1, fun k hk => ?_⟩
  rw [nodeAt?_put, nodeAt?_put, h.2 k hk]

theorem AgreeOn.erase (h : AgreeOn P t u) (l : Location) :
    AgreeOn P (t.erase l) (u.erase l) := by
  refine ⟨h.1, fun k hk => ?_⟩
  rw [nodeAt?_erase, nodeAt?_erase, h.2 k hk]

theorem AgreeOn.eraseBelow (h : AgreeOn P t u) (l : Location) :
    AgreeOn P (t.eraseBelow l) (u.eraseBelow l) := by
  refine ⟨h.1, fun k hk => ?_⟩
  rw [nodeAt?_eraseBelow, nodeAt?_eraseBelow, h.2 k hk]

theorem agreeOn_put {l : Location} (n : Node) (hl : ¬ P l) : AgreeOn P t (t.put l n) := by
  refine ⟨rfl, fun k hk => ?_⟩
  rw [nodeAt?_put, if_neg]
  rintro rfl
  exact hl hk

theorem agreeOn_erase {l : Location} (hl : ¬ P l) : AgreeOn P t (t.erase l) := by
  refine ⟨rfl, fun k hk => ?_⟩
  rw [nodeAt?_erase, if_neg]
  rintro rfl
  exact hl hk

theorem AgreeOn.node? (h : AgreeOn P t u) {l : Location} (hl : P l) : t.node? l = u.node? l := by
  rw [node?_eq, node?_eq, h.2 l hl]

/-! ## Where paths lead -/

theorem spelled_start (p : String) : (start p).Spelled := by
  unfold start
  split <;> simp [Location.Spelled]

theorem spelled_parent {l : Location} (h : l.Spelled) : (parent l).Spelled := by
  intro serial
  have := h serial
  unfold parent
  split
  · exact this
  · simpa using this
  · simpa using this
  · exact fun hm => this (List.dropLast_subset l hm)
  · exact fun hm => this (List.dropLast_subset l hm)

theorem spelled_step {l l' : Location} {name : String} (h : l.Spelled)
    (hstep : step l name = .ok l') : l'.Spelled := by
  unfold step at hstep
  split at hstep
  · cases hstep
    exact h
  · split at hstep
    · cases hstep
      exact spelled_parent h
    · split at hstep
      · cases hstep
      · cases hstep
        intro serial
        simpa using h serial

theorem walk_cons (t : FileTree) (l : Location) (name : String) (names : List String) :
    t.walk l (name :: names) = t.enter l >>= fun _ => step l name >>= fun l' => t.walk l' names :=
  rfl

theorem AgreeOn.enter (h : AgreeOn P t u) {l : Location} (hl : P l) : t.enter l = u.enter l := by
  rw [FileTree.enter, FileTree.enter, h.node? hl]

theorem spelled_walk {l l' : Location} {names : List String} (h : l.Spelled)
    (hwalk : t.walk l names = .ok l') : l'.Spelled := by
  induction names generalizing l with
  | nil =>
    cases hwalk
    exact h
  | cons name names ih =>
    obtain ⟨-, -, hrest⟩ := bind_eq_ok.1 hwalk
    obtain ⟨k, hk, hrest⟩ := bind_eq_ok.1 hrest
    exact ih (spelled_step h hk) hrest

theorem AgreeOn.walk (h : AgreeOn Location.Spelled t u) {l : Location} (hl : l.Spelled)
    (names : List String) : t.walk l names = u.walk l names := by
  induction names generalizing l with
  | nil => rfl
  | cons name names ih =>
    rw [walk_cons, walk_cons, h.enter hl]
    cases hstep : step l name with
    | error fault => rfl
    | ok l' => rw [ok_bind, ok_bind, ih (spelled_step hl hstep)]

theorem spelled_resolve {p : String} {l : Location} (h : t.resolve p = .ok l) : l.Spelled := by
  obtain ⟨-, -, hwalk⟩ := bind_eq_ok.1 h
  exact spelled_walk (spelled_start p) hwalk

theorem AgreeOn.resolve (h : AgreeOn Location.Spelled t u) (p : String) :
    t.resolve p = u.resolve p := by
  unfold FileTree.resolve
  rw [h.walk (spelled_start p)]

/-! ## Names that a run gives -/

theorem nextSerial_le_iff (t : FileTree) (m : Nat) :
    t.nextSerial ≤ m ↔ ∀ l, (t.nodeAt? l).isSome → ∀ name ∈ l, name.bound ≤ m := by
  have hnames : ∀ (l : Location) (n : Nat),
      l.foldr (fun name n => max name.bound n) n ≤ m ↔ n ≤ m ∧ ∀ name ∈ l, name.bound ≤ m := by
    intro l n
    induction l with
    | nil => simp
    | cons name l ih =>
      simp only [List.foldr_cons, Nat.max_le, ih, List.mem_cons, forall_eq_or_imp]
      constructor
      · rintro ⟨h1, h2, h3⟩
        exact ⟨h2, h1, h3⟩
      · rintro ⟨h1, h2, h3⟩
        exact ⟨h2, h1, h3⟩
  have hentries : ∀ es : List (Location × Node),
      es.foldr (fun e n => e.1.foldr (fun name n => max name.bound n) n) 0 ≤ m ↔
        ∀ l, (es.lookup l).isSome → ∀ name ∈ l, name.bound ≤ m := by
    intro es
    induction es with
    | nil => simp
    | cons e es ih =>
      obtain ⟨k, node⟩ := e
      rw [List.foldr_cons, hnames, ih]
      constructor
      · rintro ⟨hrest, hk⟩ l hl
        by_cases hlk : l = k
        · subst hlk
          exact hk
        · refine hrest l ?_
          have hne : (l == k) = false := by simpa using hlk
          simpa [List.lookup_cons, hne] using hl
      · intro h
        refine ⟨fun l hl => h l ?_, h k (by simp)⟩
        rw [List.lookup_cons]
        split
        · rfl
        · exact hl
  exact hentries t.entries

theorem AgreeOn.nextSerial (h : Same t u) : t.nextSerial = u.nextSerial := by
  refine Nat.le_antisymm ?_ ?_
  · rw [nextSerial_le_iff]
    intro l hl
    rw [h.2 l trivial] at hl
    exact (nextSerial_le_iff u _).1 (Nat.le_refl _) l hl
  · rw [nextSerial_le_iff]
    intro l hl
    rw [← h.2 l trivial] at hl
    exact (nextSerial_le_iff t _).1 (Nat.le_refl _) l hl

/-- Nothing stands under the name that a run gives next. -/
theorem nodeAt?_fresh (t : FileTree) {l : Location} (h : Name.fresh t.nextSerial ∈ l) :
    t.nodeAt? l = none := by
  cases he : t.nodeAt? l with
  | none => rfl
  | some node =>
    have := (nextSerial_le_iff t _).1 (Nat.le_refl _) l (by rw [he]; rfl) _ h
    simp only [Name.bound] at this
    omega

end FileTree

end Equijoin
