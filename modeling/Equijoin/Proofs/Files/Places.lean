import Equijoin.Proofs.Files.Entries

/-! # New names and the places of moved files

* `FileTree.Keeps`: the directories of one tree are directories of another. Where paths lead depends
  on nothing else.
* `FileTree.Opens`: a directory in which a run can make a new name.
* `FileTree.destination_eq_ok`: the place of a moved file is a name of its own in a directory.
* `FileTree.Keeps.destination`: a file that takes its place does not take it from another.
* `FileTree.read_of_destination`: a path under which a file was moved to its place reads that file.
-/

set_option autoImplicit false

namespace Equijoin

/-! ## The last piece of a path -/

namespace Path

theorem getLast?_splitOn (cs : List Char) (h : cs ≠ []) (hlast : cs.getLast? ≠ some '/') :
    ∃ first last, cs.splitOn '/' = first ++ [last] ∧ last ≠ [] := by
  induction cs with
  | nil => exact absurd rfl h
  | cons c cs ih =>
    rw [List.splitOn_cons_eq_if_modifyHead]
    cases cs with
    | nil =>
      have hc : (c == '/') = false := by simpa using hlast
      refine ⟨[], [c], ?_, by simp⟩
      simp [hc]
    | cons d ds =>
      obtain ⟨first, last, hsplit, hne⟩ := ih (by simp) (by simpa using hlast)
      rw [hsplit]
      split
      · exact ⟨[] :: first, last, rfl, hne⟩
      · cases first with
        | nil => exact ⟨[], c :: last, rfl, by simp⟩
        | cons piece first => exact ⟨(c :: piece) :: first, last, rfl, hne⟩

theorem dropSlashes_pieces {p : String} (h : p ≠ "") (hslash : endsInSlash p = false) :
    dropSlashes (pieces p) = pieces p := by
  have hnil : p.toList ≠ [] := by simpa using h
  have hlast : p.toList.getLast? ≠ some '/' := by simpa [endsInSlash] using hslash
  obtain ⟨first, last, hsplit, hne⟩ := getLast?_splitOn p.toList hnil hlast
  have hpiece : (String.ofList last == "") = false := by simpa using hne
  simp [dropSlashes, pieces, hsplit, hpiece]

end Path

namespace FileTree

variable {t u : FileTree}

/-! ## Trees with the same directories -/

/-- What is a directory in one tree, and spelled, is one in the other. -/
def Keeps (t u : FileTree) : Prop :=
  ∀ l, l.Spelled → t.node? l = some .directory → u.node? l = some .directory

theorem AgreeOn.keeps (h : AgreeOn Location.Spelled t u) : Keeps t u :=
  fun _ hl ht => by rw [← h.node? hl, ht]

theorem Keeps.trans {v : FileTree} (h : Keeps t u) (h' : Keeps u v) : Keeps t v :=
  fun l hl ht => h' l hl (h l hl ht)

theorem directory_put_file {l k : Location} (c : Bytes) (h : t.node? l ≠ some .directory) :
    (t.put l (.file c)).node? k = some .directory ↔ t.node? k = some .directory := by
  rw [node?_eq, node?_eq, nodeAt?_put]
  split
  · exact Iff.rfl
  · rename_i hall
    split
    · rename_i hkl
      subst hkl
      rw [node?_eq, if_neg hall] at h
      exact ⟨fun hk => (nomatch hk), fun hk => absurd hk h⟩
    · exact Iff.rfl

theorem keeps_put_file {l : Location} (c : Bytes) (h : t.node? l ≠ some .directory) :
    Keeps t (t.put l (.file c)) := fun _ _ hk => (directory_put_file c h).2 hk

theorem put_file_keeps {l : Location} (c : Bytes) (h : t.node? l ≠ some .directory) :
    Keeps (t.put l (.file c)) t := fun _ _ hk => (directory_put_file c h).1 hk

theorem enter_eq_ok {l : Location} : t.enter l = .ok () ↔ t.node? l = some .directory := by
  unfold enter
  split <;> simp_all

theorem walk_append (t : FileTree) (l : Location) (names rest : List String) :
    t.walk l (names ++ rest) = t.walk l names >>= fun l' => t.walk l' rest := by
  induction names generalizing l with
  | nil => rfl
  | cons name names ih =>
    rw [List.cons_append, walk_cons, walk_cons, bind_assoc]
    refine congrArg _ (funext fun _ => ?_)
    rw [bind_assoc]
    exact congrArg _ (funext fun l' => ih l')

theorem Keeps.walk (h : Keeps t u) {l l' : Location} (hl : l.Spelled) {names : List String}
    (hwalk : t.walk l names = .ok l') : u.walk l names = .ok l' := by
  induction names generalizing l with
  | nil => exact hwalk
  | cons name names ih =>
    rw [walk_cons] at hwalk ⊢
    obtain ⟨⟨⟩, henter, hwalk⟩ := bind_eq_ok.1 hwalk
    obtain ⟨k, hk, hwalk⟩ := bind_eq_ok.1 hwalk
    rw [enter_eq_ok.2 (h l hl (enter_eq_ok.1 henter)), ok_bind, hk, ok_bind]
    exact ih (spelled_step hl hk) hwalk

theorem Keeps.resolve (h : Keeps t u) {p : String} {l : Location} (ht : t.resolve p = .ok l) :
    u.resolve p = .ok l := by
  obtain ⟨⟨⟩, hcheck, hwalk⟩ := bind_eq_ok.1 ht
  unfold FileTree.resolve
  rw [hcheck, ok_bind, h.walk (spelled_start p) hwalk]

/-! ## New names -/

/-- A path leads to a directory, and with a name of some bytes more it is not too long. -/
def Opens (t : FileTree) (dir : String) (nameSize : Nat) (l : Location) : Prop :=
  checkPath dir (t.pathSize dir nameSize) = .ok () ∧
    t.walk (start dir) (Path.pieces dir) = .ok l ∧ t.enter l = .ok ()

theorem freshPlace_eq_ok {dir : String} {nameSize : Nat} {l : Location} :
    t.freshPlace dir nameSize = .ok l ↔
      ∃ k, t.Opens dir nameSize k ∧ l = k ++ [.fresh t.nextSerial] := by
  unfold freshPlace
  constructor
  · intro h
    obtain ⟨⟨⟩, hcheck, h⟩ := bind_eq_ok.1 h
    obtain ⟨k, hwalk, h⟩ := bind_eq_ok.1 h
    obtain ⟨⟨⟩, henter, h⟩ := bind_eq_ok.1 h
    exact ⟨k, ⟨hcheck, hwalk, henter⟩, (Except.ok.inj h).symm⟩
  · rintro ⟨k, ⟨hcheck, hwalk, henter⟩, rfl⟩
    rw [hcheck, ok_bind, hwalk, ok_bind, henter, ok_bind]

theorem Opens.spelled {dir : String} {nameSize : Nat} {l : Location} (h : t.Opens dir nameSize l) :
    l.Spelled := spelled_walk (spelled_start dir) h.2.1

theorem Keeps.opens (h : Keeps t u) (hhome : t.homeSize = u.homeSize) {dir : String}
    {nameSize : Nat} {l : Location} (ht : t.Opens dir nameSize l) : u.Opens dir nameSize l := by
  obtain ⟨hcheck, hwalk, henter⟩ := ht
  have hl := spelled_walk (spelled_start dir) hwalk
  refine ⟨?_, h.walk (spelled_start dir) hwalk, enter_eq_ok.2 (h l hl (enter_eq_ok.1 henter))⟩
  rw [← hcheck]
  simp only [pathSize, hhome]

theorem Keeps.freshPlace (h : Keeps t u) (hhome : t.homeSize = u.homeSize) {dir : String}
    {nameSize : Nat} {l : Location} (ht : t.freshPlace dir nameSize = .ok l) :
    ∃ l', u.freshPlace dir nameSize = .ok l' := by
  obtain ⟨k, hk, -⟩ := freshPlace_eq_ok.1 ht
  exact ⟨_, freshPlace_eq_ok.2 ⟨k, h.opens hhome hk, rfl⟩⟩

theorem AgreeOn.freshPlace_eq (h : AgreeOn Location.Spelled t u)
    (hserial : t.nextSerial = u.nextSerial) (dir : String) (nameSize : Nat) :
    t.freshPlace dir nameSize = u.freshPlace dir nameSize := by
  have hsize : t.pathSize dir nameSize = u.pathSize dir nameSize := by
    simp only [pathSize, h.1]
  unfold FileTree.freshPlace
  rw [hsize, h.walk (spelled_start dir), hserial]
  refine congrArg _ (funext fun _ => ?_)
  cases hwalk : u.walk (start dir) (Path.pieces dir) with
  | error fault => rfl
  | ok k => rw [ok_bind, ok_bind, h.enter (spelled_walk (spelled_start dir) hwalk)]

/-! ## Places of moved files -/

theorem spelled_append_given {l : Location} (h : l.Spelled) (name : String) :
    Location.Spelled (l ++ [.given name]) := by
  intro serial
  simpa using h serial

theorem step_eq_given {l l' : Location} {name : String} (h : step l name = .ok l')
    (hempty : name ≠ "") (hdot : name ≠ ".") (hdots : name ≠ "..") :
    l' = l ++ [.given name] := by
  unfold step at h
  rw [if_neg (by simp [hempty, hdot]), if_neg hdots] at h
  split at h
  · cases h
  · exact (Except.ok.inj h).symm

theorem checkPath_ne_empty {p : String} {size : Nat} (h : checkPath p size = .ok ()) : p ≠ "" := by
  rintro rfl
  unfold checkPath at h
  split at h
  · cases h
  · rw [if_pos rfl] at h
    cases h

/-- The place of a moved file is a name of its own in a directory, where no directory stands. -/
theorem destination_eq_ok {p : String} {l : Location} :
    t.destination p = .ok l ↔
      checkPath p p.utf8ByteSize = .ok () ∧ Path.endsInSlash p = false ∧
      ∃ names name dir, Path.pieces p = names ++ [name] ∧
        t.walk (start p) names = .ok dir ∧ t.enter dir = .ok () ∧
        name ≠ "." ∧ name ≠ ".." ∧ step dir name = .ok l ∧ t.node? l ≠ some .directory := by
  have hsplit : ∀ (ps names : List String) (name : String),
      ps = names ++ [name] ↔ ps.dropLast = names ∧ ps.getLast? = some name := by
    intro ps names name
    constructor
    · rintro rfl
      simp
    · rintro ⟨rfl, hlast⟩
      exact (List.dropLast_append_getLast? name hlast).symm
  unfold destination
  constructor
  · intro h
    obtain ⟨⟨⟩, hcheck, h⟩ := bind_eq_ok.1 h
    obtain ⟨dir, hwalk, h⟩ := bind_eq_ok.1 h
    obtain ⟨⟨⟩, henter, h⟩ := bind_eq_ok.1 h
    split at h
    · cases h
    · cases h
    · cases h
    · rename_i name hdot hdots hlast
      obtain ⟨k, hk, h⟩ := bind_eq_ok.1 h
      split at h
      · cases h
      · rename_i hslash
        have hslash : Path.endsInSlash p = false := by simpa using hslash
        rw [Path.dropSlashes_pieces (checkPath_ne_empty hcheck) hslash] at hwalk hlast
        split at h
        · cases h
        · rename_i hdir
          cases h
          exact ⟨hcheck, hslash, _, name, dir, (hsplit _ _ _).2 ⟨rfl, hlast⟩, hwalk, henter,
            fun e => hdot (by rw [e]), fun e => hdots (by rw [e]), hk, hdir⟩
  · rintro ⟨hcheck, hslash, names, name, dir, hpieces, hwalk, henter, hdot, hdots, hstep, hdir⟩
    obtain ⟨hinit, hlast⟩ := (hsplit _ _ _).1 hpieces
    rw [hcheck, ok_bind, Path.dropSlashes_pieces (checkPath_ne_empty hcheck) hslash]
    dsimp only
    rw [hinit, hwalk, ok_bind, henter, ok_bind, hlast]
    split
    · rename_i h
      cases h
    · rename_i h
      exact absurd (Option.some.inj h) hdot
    · rename_i h
      exact absurd (Option.some.inj h) hdots
    · rename_i h
      cases h
      rw [hstep, ok_bind, hslash, if_neg (by simp), if_neg hdir]

theorem node?_destination {p : String} {l : Location} (h : t.destination p = .ok l) :
    t.node? l ≠ some .directory := by
  obtain ⟨-, -, -, -, -, -, -, -, -, -, -, hdir⟩ := destination_eq_ok.1 h
  exact hdir

/-- The name that the file takes is no empty one, as the path does not end in a slash. -/
theorem destination_given {p : String} {l : Location} (h : t.destination p = .ok l) :
    ∃ dir name, Location.Spelled dir ∧ l = dir ++ [.given name] := by
  obtain ⟨hcheck, hslash, names, name, dir, hpieces, hwalk, -, hdot, hdots, hstep, -⟩ :=
    destination_eq_ok.1 h
  have hempty : name ≠ "" := by
    rintro rfl
    have hdrop := Path.dropSlashes_pieces (checkPath_ne_empty hcheck) hslash
    rw [hpieces] at hdrop
    have hlen := congrArg List.length hdrop
    have hle := (List.dropWhile_sublist (· == "") (l := names.reverse)).length_le
    simp [Path.dropSlashes] at hlen
    simp only [List.length_reverse] at hle
    omega
  exact ⟨dir, name, spelled_walk (spelled_start p) hwalk, step_eq_given hstep hempty hdot hdots⟩

theorem spelled_destination {p : String} {l : Location} (h : t.destination p = .ok l) :
    l.Spelled := by
  obtain ⟨dir, name, hdir, rfl⟩ := destination_given h
  exact spelled_append_given hdir name

theorem node?_of_destination {p : String} {l : Location} (h : t.destination p = .ok l)
    (u : FileTree) : u.node? l = u.nodeAt? l := by
  obtain ⟨dir, name, -, rfl⟩ := destination_given h
  rw [node?_eq, if_neg]
  simp

theorem Keeps.destination (h : Keeps t u) (h' : Keeps u t) {p : String} {l : Location}
    (ht : t.destination p = .ok l) : u.destination p = .ok l := by
  have hl := spelled_destination ht
  obtain ⟨hcheck, hslash, names, name, dir, hpieces, hwalk, henter, hdot, hdots, hstep, hdir⟩ :=
    destination_eq_ok.1 ht
  have hspelled := spelled_walk (spelled_start p) hwalk
  exact destination_eq_ok.2 ⟨hcheck, hslash, names, name, dir, hpieces,
    h.walk (spelled_start p) hwalk, enter_eq_ok.2 (h dir hspelled (enter_eq_ok.1 henter)), hdot,
    hdots, hstep, fun hu => hdir (h' l hl hu)⟩

theorem AgreeOn.destination (h : AgreeOn Location.Spelled t u) (p : String) :
    t.destination p = u.destination p := by
  unfold FileTree.destination
  dsimp only
  rw [h.walk (spelled_start p)]
  refine congrArg _ (funext fun _ => ?_)
  cases hdir : u.walk (start p) (Path.dropSlashes (Path.pieces p)).dropLast with
  | error fault => rfl
  | ok dir =>
    have hspelled := spelled_walk (spelled_start p) hdir
    rw [ok_bind, ok_bind, h.enter hspelled]
    refine congrArg _ (funext fun _ => ?_)
    split
    · rfl
    · rfl
    · rfl
    · rename_i name _ _ _
      cases hstep : step dir name with
      | error fault => rfl
      | ok l => rw [ok_bind, ok_bind, h.node? (spelled_step hspelled hstep)]

/-- Once a file stands at its place, the path leads to it. -/
theorem read_of_destination {p : String} {l : Location} {c : Bytes} (h : Keeps t u)
    (ht : t.destination p = .ok l) (hu : u.nodeAt? l = some (.file c)) : u.read p = .ok c := by
  have hnode : u.node? l = some (.file c) := by rw [node?_of_destination ht, hu]
  obtain ⟨hcheck, -, names, name, dir, hpieces, hwalk, henter, -, -, hstep, -⟩ :=
    destination_eq_ok.1 ht
  have hspelled := spelled_walk (spelled_start p) hwalk
  have hresolve : u.resolve p = .ok l := by
    unfold resolve
    rw [hcheck, ok_bind, hpieces, walk_append, h.walk (spelled_start p) hwalk, ok_bind, walk_cons,
      enter_eq_ok.2 (h dir hspelled (enter_eq_ok.1 henter)), ok_bind, hstep]
    rfl
  simp only [FileTree.read, FileTree.locate, hresolve, ok_bind, hnode]

end FileTree

end Equijoin
