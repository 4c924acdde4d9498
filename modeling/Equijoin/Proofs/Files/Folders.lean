import Equijoin.Proofs.Files.ScratchNames
import Equijoin.Proofs.Files.Views

/-! # The files of a folder

Files with different names in one folder are different files, whether the folder is a scratch
directory or a path, which may lead anywhere.

* `pieces_join`: the path of a file in a folder ends in the name of the file.
* `locate_file`: so does the location to which it leads.
* `Apart`: paths of different files. `apart_of_ne`: files with different names in a folder.
* `Collide`: paths of one file. `Collide.name_eq`: in a folder, these end in one name.
* `read_folder`: what has been written under names of a folder is read there.
-/

set_option autoImplicit false

namespace Equijoin

/-! ## Names -/

/-- The text names a file, wherever the path before it leads. -/
structure Path.IsName (name : String) : Prop where
  slash : '/' ∉ name.toList
  ne_empty : name ≠ ""
  ne_dot : name ≠ "."
  ne_dots : name ≠ ".."

theorem Path.pieces_join (dir : String) {name : String} (h : '/' ∉ name.toList) :
    ∃ above, pieces (join dir name) = above ++ [name] := by
  have hpieces : ∀ cs : List Char, (cs ++ '/' :: name.toList).splitOn '/' =
      cs.splitOn '/' ++ [name.toList] := fun cs => by
    rw [List.splitOn_append_cons_self, List.splitOn_eq_singleton h]
  unfold pieces join
  by_cases hempty : dir = ""
  · refine ⟨[], ?_⟩
    rw [hempty, if_pos (by decide), String.empty_append, List.splitOn_eq_singleton h]
    simp
  by_cases hslash : endsInSlash dir = true
  · obtain ⟨cs, hcs⟩ : ∃ cs, dir.toList = cs ++ ['/'] := by
      rw [endsInSlash, beq_iff_eq] at hslash
      exact ⟨_, (List.dropLast_append_getLast? '/' hslash).symm⟩
    refine ⟨(cs.splitOn '/').map String.ofList, ?_⟩
    rw [if_pos (by simp [hslash]), String.toList_append, hcs, List.append_assoc,
      List.singleton_append, hpieces]
    simp
  · refine ⟨(dir.toList.splitOn '/').map String.ofList, ?_⟩
    have hbar : "/".toList = ['/'] := by decide
    rw [if_neg (by simp [hempty, hslash]), String.toList_append, String.toList_append, hbar,
      List.append_assoc, List.singleton_append, hpieces]
    simp

theorem Path.isName_of_head {name : String} {c : Char} (h : name.toList.head? = some c)
    (hc : c ≠ '.') (hslash : '/' ∉ name.toList) : IsName name := by
  have hne : ∀ s : String, s.toList.head? ≠ some c → name ≠ s := fun s hs heq => hs (heq ▸ h)
  refine ⟨hslash, hne _ ?_, hne _ ?_, hne _ ?_⟩
  · show none ≠ some c
    simp
  · show some '.' ≠ some c
    simpa using hc.symm
  · show some '.' ≠ some c
    simpa using hc.symm

theorem slash_notMem_fiveDigits (n : Nat) : '/' ∉ (fiveDigits n).toList := by
  have hdigits : '/' ∉ Nat.toDigits 10 n := notMem_toDigits (by decide) n
  simp [fiveDigits, hdigits]

theorem isName_shardName (dataset shard : Nat) : Path.IsName (shardName dataset shard) := by
  have hdigits : '/' ∉ Nat.toDigits 10 dataset := notMem_toDigits (by decide) dataset
  have hname := toList_shardName dataset shard
  apply Path.isName_of_head (c := 'i')
  · rw [hname]
    rfl
  · decide
  · rw [hname]
    simp [hdigits, slash_notMem_fiveDigits]

theorem isName_partName (shard : Nat) : Path.IsName (partName shard) := by
  have hname := toList_partName shard
  apply Path.isName_of_head (c := 'p')
  · rw [hname]
    rfl
  · decide
  · rw [hname]
    simp [slash_notMem_fiveDigits]

namespace FileTree

variable {t t' : FileTree} {folder : Folder}

/-! ## Locations -/

theorem locate_file {name : String} (hname : Path.IsName name) {l : Location}
    (h : t.locate (folder.file name) = .ok l) : ∃ above, l = above ++ [.given name] := by
  cases folder with
  | scratch dir => exact ⟨_, leads_locate h⟩
  | spelled path =>
    obtain ⟨above, hpieces⟩ := Path.pieces_join path hname.slash
    obtain ⟨⟨⟩, -, h⟩ := bind_eq_ok.1 h
    rw [hpieces, walk_append] at h
    obtain ⟨here, -, h⟩ := bind_eq_ok.1 h
    rw [walk_cons] at h
    obtain ⟨⟨⟩, -, h⟩ := bind_eq_ok.1 h
    obtain ⟨k, hk, h⟩ := bind_eq_ok.1 h
    cases h
    exact ⟨here, step_eq_given hk hname.ne_empty hname.ne_dot hname.ne_dots⟩

/-! ## Contents -/

/-- The paths never lead to one location. -/
def Apart (p q : FilePath) : Prop :=
  ∀ (t : FileTree) (l : Location), t.locate p = .ok l → t.locate q ≠ .ok l

theorem apart_of_ne {name other : String} (hname : Path.IsName name) (hother : Path.IsName other)
    (h : name ≠ other) : Apart (folder.file name) (folder.file other) := by
  intro t l hl hl'
  obtain ⟨above, rfl⟩ := locate_file hname hl
  obtain ⟨above', hsame⟩ := locate_file hother hl'
  exact h (by simpa using (List.append_inj' hsame rfl).2)

theorem file_inj {name other : String} (hname : Path.IsName name) (hother : Path.IsName other)
    (h : folder.file name = folder.file other) : name = other := by
  cases folder with
  | scratch dir =>
    cases h
    rfl
  | spelled path =>
    obtain ⟨above, hpieces⟩ := Path.pieces_join path hname.slash
    obtain ⟨above', hpieces'⟩ := Path.pieces_join path hother.slash
    have hjoin : Path.join path name = Path.join path other := FilePath.spelled.inj h
    rw [hjoin, hpieces'] at hpieces
    simpa using (List.append_inj' hpieces rfl).2.symm

/-- One path, or two that lead to one location in some tree. -/
def Collide (p q : FilePath) : Prop := p = q ∨ ¬ Apart p q

theorem Collide.name_eq {name other : String} (hname : Path.IsName name)
    (hother : Path.IsName other) (h : Collide (folder.file name) (folder.file other)) :
    name = other := by
  cases h with
  | inl hsame => exact file_inj hname hother hsame
  | inr hmeet =>
    by_contra hne
    exact hmeet (apart_of_ne hname hother hne)

/-- Writing a file leaves the files at other places as they are. -/
theorem read_writeFile_apart {p q : FilePath} {c c' : Bytes} (h : t.writeFile q c' = .ok t')
    (hapart : Apart p q) (hread : t.read p = .ok c) : t'.read p = .ok c := by
  obtain ⟨k, hk, hdir, rfl⟩ := writeFile_eq_ok.1 h
  obtain ⟨l, hl, hnode⟩ := bind_eq_ok.1 hread
  have hlk : l ≠ k := by
    rintro rfl
    exact hapart t l hl hk
  have hsame : (t.put k (.file c')).node? l = t.node? l := by
    rw [node?_eq, node?_eq, nodeAt?_put, if_neg hlk]
  unfold FileTree.read
  rw [locate_put_file c' hl hdir, ok_bind, hsame]
  exact hnode

theorem read_writeFiles_apart {p : FilePath} {c : Bytes} {contents : List (FilePath × Bytes)}
    (h : t.writeFiles contents = .ok t') (hapart : ∀ e ∈ contents, Apart p e.1)
    (hread : t.read p = .ok c) : t'.read p = .ok c := by
  induction contents generalizing t with
  | nil =>
    cases h
    exact hread
  | cons e rest ih =>
    obtain ⟨t₁, ht₁, h⟩ := bind_eq_ok.1 h
    exact ih h (fun e' he' => hapart e' (List.mem_cons_of_mem _ he'))
      (read_writeFile_apart ht₁ (hapart e List.mem_cons_self) hread)

/-- What has been written under names of a folder is read there. -/
theorem read_folder {ι : Type} {name : ι → String} {text : ι → Bytes}
    (hname : ∀ i, Path.IsName (name i)) (hinj : ∀ i j, name i = name j → i = j) {is : List ι}
    (h : t.writeFiles (is.map fun i => (folder.file (name i), text i)) = .ok t') (i : ι)
    (hi : i ∈ is) : t'.read (folder.file (name i)) = .ok (text i) := by
  induction is generalizing t with
  | nil => cases hi
  | cons j is ih =>
    obtain ⟨t₁, ht₁, hrest⟩ := bind_eq_ok.1 h
    by_cases hmem : i ∈ is
    · exact ih hrest hmem
    · obtain rfl : i = j := by simpa [hmem] using hi
      refine read_writeFiles_apart hrest (fun e he => ?_) (read_writeFile ht₁)
      obtain ⟨j, hj, rfl⟩ := List.mem_map.1 he
      refine apart_of_ne (hname i) (hname j) fun hsame => hmem ?_
      rw [hinj i j hsame]
      exact hj

end FileTree

end Equijoin
