import Equijoin.Delimiter
import Equijoin.Proofs.Files.Places
import Equijoin.Sharding

/-! # Operations on files that a task sees

Two trees that agree on all that a path can depend on are the same to the operations on its file.

* `FilePath.Leads`: the locations to which a path can lead.
* `FilePath.Seen`: all that a path can depend on is at locations of a kind.
* `AgreeOn.read`, `AgreeOn.writeFile`, `AgreeOn.discard`: the operations on trees that agree.
* `agreeOn_writeFile`, `agreeOn_discard`: what they leave alone.
* `FileTree.Takes`: a file can be written under a path.
-/

set_option autoImplicit false

namespace Equijoin

/-! ## Where a path leads -/

namespace FilePath

/-- The path can lead to the location. -/
def Leads : FilePath → Location → Prop
  | spelled _, l => l.Spelled
  | inside dir name, l => l = dir.location ++ [.given name]

/-- All that decides where a path leads, and what stands there, is at locations of a kind. -/
def Seen (P : Location → Prop) : FilePath → Prop
  | spelled _ => ∀ l, l.Spelled → P l
  | inside dir name => P dir.location ∧ P (dir.location ++ [.given name])

theorem Seen.leads {P : Location → Prop} {p : FilePath} (hp : p.Seen P) {l : Location}
    (h : p.Leads l) : P l := by
  cases p with
  | spelled path => exact hp l h
  | inside dir name =>
    rw [show l = _ from h]
    exact hp.2

theorem seen_all (p : FilePath) : p.Seen fun _ => True := by
  cases p with
  | spelled path => exact fun _ _ => trivial
  | inside dir name => exact ⟨trivial, trivial⟩

end FilePath

namespace FileTree

variable {P Q : Location → Prop} {t u : FileTree} {p : FilePath}

theorem leads_locate {l : Location} (h : t.locate p = .ok l) : p.Leads l := by
  cases p with
  | spelled path => exact spelled_resolve h
  | inside dir name =>
    obtain ⟨⟨⟩, -, h⟩ := bind_eq_ok.1 h
    obtain ⟨⟨⟩, -, h⟩ := bind_eq_ok.1 h
    exact (Except.ok.inj h).symm

theorem AgreeOn.locate (h : AgreeOn P t u) (hp : p.Seen P) : t.locate p = u.locate p := by
  cases p with
  | spelled path => exact (h.mono hp).resolve path
  | inside dir name =>
    simp only [FileTree.locate, h.enter hp.1]

/-! ## Reading -/

theorem AgreeOn.read (h : AgreeOn P t u) (hp : p.Seen P) : t.read p = u.read p := by
  simp only [FileTree.read, h.locate hp]
  cases hl : u.locate p with
  | error fault => rfl
  | ok l => simp only [ok_bind, h.node? (hp.leads (leads_locate hl))]

theorem AgreeOn.size (h : AgreeOn P t u) (hp : p.Seen P) : t.size p = u.size p := by
  simp only [FileTree.size, h.locate hp]
  cases hl : u.locate p with
  | error fault => rfl
  | ok l => simp only [ok_bind, h.node? (hp.leads (leads_locate hl))]

theorem AgreeOn.readSheet (h : AgreeOn P t u) (hp : p.Seen P) (delimiter : UInt8) :
    t.readSheet p delimiter = u.readSheet p delimiter := by
  unfold FileTree.readSheet
  rw [h.read hp]

theorem AgreeOn.sniff {path : String} (h : AgreeOn P t u) (hp : FilePath.Seen P path) :
    Delimiter.sniff t path = Delimiter.sniff u path := by
  unfold Delimiter.sniff
  rw [h.read hp]

theorem AgreeOn.load (h : AgreeOn P t u) (hp : p.Seen P) (delimiter : UInt8) (schema : Schema) :
    Table.load t p delimiter schema = Table.load u p delimiter schema := by
  unfold Table.load
  rw [h.readSheet hp]

/-! ## Writing -/

/-- A file can be written under the path. -/
def Takes (t : FileTree) (p : FilePath) : Prop :=
  ∃ l, t.locate p = .ok l ∧ t.node? l ≠ some .directory

theorem AgreeOn.takes (h : AgreeOn P t u) (hp : p.Seen P) (ht : t.Takes p) : u.Takes p := by
  obtain ⟨l, hl, hdir⟩ := ht
  rw [h.locate hp] at hl
  exact ⟨l, hl, by rwa [← h.node? (hp.leads (leads_locate hl))]⟩

theorem writeFile_eq_ok {c : Bytes} {t' : FileTree} :
    t.writeFile p c = .ok t' ↔
      ∃ l, t.locate p = .ok l ∧ t.node? l ≠ some .directory ∧ t' = t.put l (.file c) := by
  unfold writeFile
  constructor
  · intro h
    obtain ⟨l, hl, h⟩ := bind_eq_ok.1 h
    split at h
    · cases h
    · rename_i hdir
      exact ⟨l, hl, hdir, (Except.ok.inj h).symm⟩
  · rintro ⟨l, hl, hdir, rfl⟩
    rw [hl, ok_bind]
    split
    · rename_i hnode
      exact absurd hnode hdir
    · rfl

theorem locate_put_file {k l : Location} (c : Bytes) (h : t.locate p = .ok k)
    (hl : t.node? l ≠ some .directory) : (t.put l (.file c)).locate p = .ok k := by
  cases p with
  | spelled path => exact (keeps_put_file c hl).resolve h
  | inside dir name =>
    obtain ⟨⟨⟩, hsize, h⟩ := bind_eq_ok.1 h
    obtain ⟨⟨⟩, henter, h⟩ := bind_eq_ok.1 h
    simp only [FileTree.locate, hsize, ok_bind,
      enter_eq_ok.2 ((directory_put_file c hl).2 (enter_eq_ok.1 henter)), h]

theorem Takes.put (h : t.Takes p) {l : Location} (c : Bytes) (hl : t.node? l ≠ some .directory) :
    (t.put l (.file c)).Takes p := by
  obtain ⟨k, hk, hdir⟩ := h
  exact ⟨k, locate_put_file c hk hl, fun hc => hdir ((directory_put_file c hl).1 hc)⟩

theorem read_writeFile {c : Bytes} {t' : FileTree} (h : t.writeFile p c = .ok t') :
    t'.read p = .ok c := by
  obtain ⟨l, hl, hdir, rfl⟩ := writeFile_eq_ok.1 h
  have hnode : (t.put l (.file c)).node? l = some (.file c) := by
    rw [node?_eq] at hdir ⊢
    split
    · rename_i hall
      rw [if_pos hall] at hdir
      exact absurd rfl hdir
    · rw [nodeAt?_put, if_pos rfl]
  unfold FileTree.read
  rw [locate_put_file c hl hdir, ok_bind, hnode]

theorem Takes.writeFiles (h : t.Takes p) {contents : List (FilePath × Bytes)} {t' : FileTree}
    (ht : t.writeFiles contents = .ok t') : t'.Takes p := by
  induction contents generalizing t with
  | nil =>
    cases ht
    exact h
  | cons e rest ih =>
    obtain ⟨t₁, ht₁, ht⟩ := bind_eq_ok.1 ht
    obtain ⟨l, -, hdir, rfl⟩ := writeFile_eq_ok.1 ht₁
    exact ih (h.put e.2 hdir) ht

theorem writeFiles_ok {contents : List (FilePath × Bytes)} (h : ∀ e ∈ contents, t.Takes e.1) :
    ∃ t', t.writeFiles contents = .ok t' := by
  induction contents generalizing t with
  | nil => exact ⟨t, rfl⟩
  | cons e rest ih =>
    obtain ⟨l, hl, hdir⟩ := h e (by simp)
    obtain ⟨t', ht'⟩ := ih (t := t.put l (.file e.2))
      fun e' he' => (h e' (by simp [he'])).put e.2 hdir
    refine ⟨t', ?_⟩
    rw [FileTree.writeFiles, writeFile_eq_ok.2 ⟨l, hl, hdir, rfl⟩, ok_bind, ht']

theorem AgreeOn.writeFile (h : AgreeOn P t u) (hp : p.Seen P) (c : Bytes) :
    Alike (AgreeOn P) (t.writeFile p c) (u.writeFile p c) := by
  unfold FileTree.writeFile
  rw [h.locate hp]
  cases hl : u.locate p with
  | error fault => rfl
  | ok l =>
    rw [ok_bind, ok_bind, h.node? (hp.leads (leads_locate hl))]
    split
    · exact rfl
    · exact h.put l _

theorem AgreeOn.writeFiles (h : AgreeOn P t u) {contents : List (FilePath × Bytes)}
    (hp : ∀ e ∈ contents, e.1.Seen P) :
    Alike (AgreeOn P) (t.writeFiles contents) (u.writeFiles contents) := by
  induction contents generalizing t u with
  | nil => exact h
  | cons e rest ih =>
    exact (h.writeFile (hp e (by simp)) e.2).bind fun t' u' h' =>
      ih h' fun e' he' => hp e' (by simp [he'])

theorem agreeOn_writeFile {c : Bytes} {t' : FileTree} (h : t.writeFile p c = .ok t')
    (hp : ∀ l, p.Leads l → ¬ P l) : AgreeOn P t t' := by
  obtain ⟨l, hl, -, rfl⟩ := writeFile_eq_ok.1 h
  exact agreeOn_put _ (hp l (leads_locate hl))

theorem agreeOn_writeFiles {contents : List (FilePath × Bytes)} {t' : FileTree}
    (h : t.writeFiles contents = .ok t') (hp : ∀ e ∈ contents, ∀ l, e.1.Leads l → ¬ P l) :
    AgreeOn P t t' := by
  induction contents generalizing t with
  | nil =>
    cases h
    exact AgreeOn.refl P _
  | cons e rest ih =>
    obtain ⟨t₁, ht₁, h⟩ := bind_eq_ok.1 h
    exact (agreeOn_writeFile ht₁ (hp e (by simp))).trans
      (ih h fun e' he' => hp e' (by simp [he']))

theorem read_writeFiles {ι : Type} {dir : Scratch} {name : ι → String} {text : ι → Bytes}
    (hinj : ∀ i j, name i = name j → i = j) {is : List ι} {t' : FileTree}
    (h : t.writeFiles (is.map fun i => (.inside dir (name i), text i)) = .ok t') (i : ι)
    (hi : i ∈ is) : t'.read (.inside dir (name i)) = .ok (text i) := by
  induction is generalizing t with
  | nil => cases hi
  | cons j is ih =>
    obtain ⟨t₁, ht₁, hrest⟩ := bind_eq_ok.1 h
    by_cases hmem : i ∈ is
    · exact ih hrest hmem
    · obtain rfl : i = j := by simpa [hmem] using hi
      -- the files that are written later have other names
      have hkeep : AgreeOn (fun l => ∀ j ∈ is, l ≠ dir.location ++ [.given (name j)]) t₁ t' := by
        refine agreeOn_writeFiles hrest fun e he l hl hnot => ?_
        obtain ⟨j, hj, rfl⟩ := List.mem_map.1 he
        exact hnot j hj hl
      rw [← hkeep.read, read_writeFile ht₁]
      refine ⟨fun j _ h => ?_, fun j hj h => ?_⟩
      · have := congrArg List.length h
        simp at this
      · obtain rfl := hinj i j (by simpa using h)
        exact hmem hj

/-! ## Removing -/

theorem AgreeOn.removeFile (h : AgreeOn P t u) (hp : p.Seen P) :
    Alike (AgreeOn P) (t.removeFile p) (u.removeFile p) := by
  unfold FileTree.removeFile
  rw [h.locate hp]
  cases hl : u.locate p with
  | error fault => rfl
  | ok l =>
    rw [ok_bind, ok_bind, h.node? (hp.leads (leads_locate hl))]
    split
    · exact h.erase l
    · exact rfl
    · exact rfl

theorem AgreeOn.discard (h : AgreeOn P t u) (hp : p.Seen P) :
    AgreeOn P (t.discard p) (u.discard p) := by
  unfold FileTree.discard
  have := h.removeFile hp
  cases ht : t.removeFile p with
  | ok t' =>
    obtain ⟨u', hu, h'⟩ := this.ok ht
    rw [hu]
    exact h'
  | error fault =>
    rw [this.error ht]
    exact h

theorem agreeOn_discard (t : FileTree) (hp : ∀ l, p.Leads l → ¬ P l) :
    AgreeOn P t (t.discard p) := by
  unfold discard
  cases ht : t.removeFile p with
  | error fault => exact AgreeOn.refl P t
  | ok t' =>
    unfold removeFile at ht
    obtain ⟨l, hl, ht⟩ := bind_eq_ok.1 ht
    split at ht
    · cases ht
      exact agreeOn_erase (hp l (leads_locate hl))
    · cases ht
    · cases ht

end FileTree

end Equijoin
