import Equijoin.Proofs.Runs.Emission
import Equijoin.Proofs.Tables.Partition
import Equijoin.Proofs.Tasks.Guarantees

/-! # Assembling step by step

An output is assembled in a staged file to which the parts are copied, one after another. No step of
this changes what a path shows, and if a part cannot be copied the staged file is removed. So the
output is there as a whole, or the files are what they were.

* `copyParts`, `assembling`: the steps.
* `alone_assembling`: together they come to what `assembleParts` comes to.
* `stays_assembling`: each of them leaves alone whatever a path can lead to.
* `Part.Written`: a part that has been written from a table.
* `assembleParts_of_written`: the order in which parts come does not matter.
* `assembleParts_atomic`: both together.
-/

set_option autoImplicit false

namespace Equijoin

open FileTree

/-! ## Staged files -/

namespace FileTree

variable {t : FileTree} {l : Location}

/-- The tree with more bytes at the end of a file. -/
def append (t : FileTree) (l : Location) (bytes : Bytes) : FileTree :=
  match t.node? l with
  | some (.file content) => t.put l (.file (content ++ bytes))
  | _ => t

theorem put_put (t : FileTree) (l : Location) (m n : Node) : (t.put l m).put l n = t.put l n := by
  simp [put, List.filter_filter]

/-- A file at a location where nothing stood is removed, and the tree is what it was. -/
theorem unstage_put (h : t.nodeAt? l = none) (n : Node) : (t.put l n).unstage l = t := by
  have hkeep : t.entries.filter (fun e => e.1 != l) = t.entries := by
    rw [List.filter_eq_self]
    intro e he
    rw [bne_iff_ne]
    rintro rfl
    have hne := List.lookup_eq_none_iff.1 h e he
    rw [bne_self_eq_false] at hne
    cases hne
  show (⟨t.homeSize, ((l, n) :: t.entries.filter (·.1 != l)).filter (·.1 != l)⟩ : FileTree) = t
  rw [List.filter_cons_of_neg (by simp), hkeep, hkeep]

/-- A new file for the output of a path has a name that no path spells. -/
structure Staging (t : FileTree) (l : Location) : Prop extends New t l where
  fresh : ∃ dir serial, l = dir ++ [.fresh serial]

theorem staging_of_place {path : String} (h : t.stagingPlace path = .ok l) : Staging t l := by
  obtain ⟨k, -, hl⟩ := freshPlace_eq_ok.1 h
  exact ⟨new_stagingPlace h, k, _, hl⟩

namespace Staging

variable {c : Bytes} {p : FilePath}

theorem node? (h : Staging t l) (c : Bytes) : (t.put l (.file c)).node? l = some (.file c) := by
  obtain ⟨dir, serial, rfl⟩ := h.fresh
  rw [node?_eq, if_neg (by simp), nodeAt?_put, if_pos rfl]

theorem append_put (h : Staging t l) (c bytes : Bytes) :
    (t.put l (.file c)).append l bytes = t.put l (.file (c ++ bytes)) := by
  unfold append
  rw [h.node?]
  exact put_put t l _ _

theorem not_directory (h : Staging t l) : t.node? l ≠ some .directory := by
  obtain ⟨dir, serial, rfl⟩ := h.fresh
  rw [node?_eq, if_neg (by simp), h.absent]
  exact fun h => nomatch h

/-- No path leads to the new file. -/
theorem ne_of_leads (h : Staging t l) {k : Location} (hk : p.Leads k) : k ≠ l := by
  rintro rfl
  cases p with
  | spelled path => exact h.not_spelled hk
  | inside dir name =>
    obtain ⟨dir', serial, hl⟩ := h.fresh
    have hlast := congrArg List.getLast? ((show k = _ from hk).symm.trans hl)
    simp at hlast

theorem locate_put (h : Staging t l) (c : Bytes) {k : Location} :
    (t.put l (.file c)).locate p = .ok k ↔ t.locate p = .ok k := by
  cases p with
  | spelled path =>
    exact ⟨(put_file_keeps c h.not_directory).resolve, (keeps_put_file c h.not_directory).resolve⟩
  | inside dir name =>
    have henter : (t.put l (.file c)).enter dir.location = .ok () ↔
        t.enter dir.location = .ok () := by
      rw [enter_eq_ok, enter_eq_ok, directory_put_file c h.not_directory]
    unfold FileTree.locate
    simp only [bind_eq_ok]
    refine exists_congr fun _ => and_congr_right fun _ => ?_
    exact exists_congr fun _ => and_congr_left fun _ => henter

/-- Whatever has been written to the new file, the other files are read as before. -/
theorem read_put (h : Staging t l) (c : Bytes) {text : Bytes} :
    (t.put l (.file c)).read p = .ok text ↔ t.read p = .ok text := by
  unfold FileTree.read
  rw [bind_eq_ok, bind_eq_ok]
  simp only [h.locate_put]
  refine exists_congr fun k => and_congr_right fun hk => ?_
  rw [node?_eq, node?_eq, nodeAt?_put, if_neg (h.ne_of_leads (leads_locate hk))]

end Staging

end FileTree

/-! ## The steps -/

/-- An empty file is staged next to a path. -/
def stageEmpty (path : String) : Task FileTree Location :=
  Task.step (fun files => some (match files.stage path [] with
      | .ok (files, _) => files
      | .error _ => files))
    fun files => .done (((files.stage path []).mapError Fault.io).map (·.2))

/-- The content of the file of a part. A part without rows needs no file. -/
def Part.text (files : FileTree) (part : Part) : Outcome Bytes :=
  if part.rows = 0 then .ok [] else (files.read part.path).mapError Fault.io

/-- The file of a part is copied to the end of a staged file. -/
def copyPart (staged : Location) (part : Part) : Task FileTree Unit :=
  if part.rows = 0 then Task.succeed ()
  else do
    let files ← Task.read
    let text ← Task.ofOutcome ((files.read part.path).mapError Fault.io)
    Task.act fun files => files.append staged text

/-- Parts are copied one after another, as long as they have the given columns. -/
def copyParts (columns : List String) (staged : Location) : List Part → Task FileTree Unit
  | [] => Task.succeed ()
  | part :: rest =>
    if part.columns ≠ columns then
      Task.fail (.schema (.unequalParts part.index part.columns columns))
    else do
      copyPart staged part
      copyParts columns staged rest

/-- A header and the parts below it are written to a staged file. -/
def writeStaged (columns : List String) (staged : Location) (parts : List Part) :
    Task FileTree Unit := do
  Task.act fun files => files.append staged (Csv.writeLine Delimiter.comma columns)
  copyParts columns staged parts

/-- Parts become one staged file step by step. Where that fails the file is removed. -/
def assembling (parts : List Part) (path : String) : Task FileTree Assembled :=
  match parts.mergeSort fun p q => p.index.ble q.index with
  | [] => Task.fail (.config .noPart)
  | first :: rest => do
    let staged ← stageEmpty path
    match ← (writeStaged first.columns staged (first :: rest)).caught with
    | .ok () => Task.succeed ⟨first.columns, totalRows (first :: rest), staged⟩
    | .error fault => do
      Task.act fun files => files.unstage staged
      Task.fail fault

/-! ## What the steps come to -/

namespace Task

variable {σ α β : Type} {raised : Bool} {s s' : σ}

theorem alone_bind_error {t : Task σ α} {fault : Fault} (f : α → Task σ β)
    (h : t.alone raised s = some (.error fault, s')) :
    (t.bind f).alone raised s = some (.error fault, s') := by
  induction t generalizing s with
  | done r =>
    cases h
    rfl
  | look next ih => exact ih raised h
  | step change next ih =>
    cases hs : change s with
    | none => simp [alone, finish, hs] at h
    | some u =>
      rw [alone_step raised next hs] at h
      rw [step_bind, alone_step raised _ hs]
      exact ih s h

theorem alone_caught {t : Task σ α} {r : Outcome α} (h : t.alone raised s = some (r, s')) :
    t.caught.alone raised s = some (.ok r, s') := by
  induction t generalizing s with
  | done r =>
    cases h
    rfl
  | look next ih => exact ih raised h
  | step change next ih =>
    cases hs : change s with
    | none => simp [alone, finish, hs] at h
    | some u =>
      rw [alone_step raised next hs] at h
      rw [caught, alone_step raised _ hs]
      exact ih s h

end Task

variable {files after : FileTree} {parts : List Part} {part : Part} {columns : List String}
  {staged : Location} {path : String} {content text : Bytes} {raised : Bool} {fault : Fault}

theorem partTexts_cons (files : FileTree) (columns : List String) (part : Part)
    (rest : List Part) : partTexts files columns (part :: rest) =
      if part.columns = columns then
        part.text files >>= fun text => partTexts files columns rest >>= fun more =>
          .ok (text ++ more)
      else .error (.schema (.unequalParts part.index part.columns columns)) := by
  rw [partTexts]
  unfold Part.text
  by_cases hcolumns : part.columns = columns
  · rw [if_neg (by simpa using hcolumns), if_pos hcolumns]
    by_cases hrows : part.rows = 0
    · rw [if_pos hrows, if_pos hrows]
      rfl
    · rw [if_neg hrows, if_neg hrows]
  · rw [if_pos (by simpa using hcolumns), if_neg hcolumns]
    rfl

theorem alone_copyPart (hrows : part.rows ≠ 0) (files : FileTree) :
    (copyPart staged part).alone raised files =
      ((Task.done ((files.read part.path).mapError Fault.io)).bind fun text =>
        Task.act fun files : FileTree => files.append staged text).alone raised files := by
  unfold copyPart
  rw [if_neg hrows]
  rfl

theorem alone_copyPart_ok (h : Staging files staged) (htext : part.text files = .ok text) :
    (copyPart staged part).alone raised (files.put staged (.file content)) =
      some (.ok (), files.put staged (.file (content ++ text))) := by
  unfold Part.text at htext
  split at htext
  · rename_i hrows
    cases htext
    rw [copyPart, if_pos hrows, List.append_nil]
    rfl
  · rename_i hrows
    have hread := (h.read_put content).2 (mapError_eq_ok.1 htext)
    rw [alone_copyPart hrows, hread, ← h.append_put]
    rfl

theorem alone_copyPart_error (h : Staging files staged) (hfault : part.text files = .error fault) :
    ∃ fault', (copyPart staged part).alone raised (files.put staged (.file content)) =
      some (.error fault', files.put staged (.file content)) := by
  unfold Part.text at hfault
  split at hfault
  · cases hfault
  · rename_i hrows
    obtain ⟨io, hio, -⟩ := mapError_eq_error.1 hfault
    rw [alone_copyPart hrows]
    cases hread : (files.put staged (.file content)).read part.path with
    | ok text =>
      rw [(h.read_put content).1 hread] at hio
      cases hio
    | error io' => exact ⟨.io io', rfl⟩

theorem alone_copyParts_ok (h : Staging files staged)
    (htext : partTexts files columns parts = .ok text) :
    (copyParts columns staged parts).alone raised (files.put staged (.file content)) =
      some (.ok (), files.put staged (.file (content ++ text))) := by
  induction parts generalizing content text with
  | nil =>
    cases htext
    rw [List.append_nil]
    rfl
  | cons part rest ih =>
    rw [partTexts_cons] at htext
    split at htext
    · rename_i hcolumns
      obtain ⟨first, hfirst, htext⟩ := bind_eq_ok.1 htext
      obtain ⟨more, hmore, htext⟩ := bind_eq_ok.1 htext
      cases htext
      rw [copyParts, if_neg (by simpa using hcolumns), Task.bind_eq,
        Task.alone_bind (alone_copyPart_ok h hfirst), ih hmore, List.append_assoc]
    · cases htext

theorem alone_copyParts_error (h : Staging files staged)
    (hfault : partTexts files columns parts = .error fault) :
    ∃ fault' content', (copyParts columns staged parts).alone raised
        (files.put staged (.file content)) =
      some (.error fault', files.put staged (.file content')) := by
  induction parts generalizing content with
  | nil => cases hfault
  | cons part rest ih =>
    rw [partTexts_cons] at hfault
    split at hfault
    · rename_i hcolumns
      rw [copyParts, if_neg (by simpa using hcolumns), Task.bind_eq]
      rcases bind_eq_error.1 hfault with hfirst | ⟨first, hfirst, hfault⟩
      · obtain ⟨fault', hcopy⟩ := alone_copyPart_error h hfirst
        exact ⟨fault', content, Task.alone_bind_error _ hcopy⟩
      · rw [Task.alone_bind (alone_copyPart_ok h hfirst)]
        rcases bind_eq_error.1 hfault with hrest | ⟨more, -, hfault⟩
        · exact ih hrest
        · cases hfault
    · rename_i hcolumns
      rw [copyParts, if_pos (by simpa using hcolumns)]
      exact ⟨_, content, rfl⟩

theorem alone_writeStaged (h : Staging files staged) :
    (writeStaged columns staged parts).alone raised (files.put staged (.file [])) =
      (copyParts columns staged parts).alone raised
        (files.put staged (.file (Csv.writeLine Delimiter.comma columns))) := by
  have hheader := h.append_put [] (Csv.writeLine Delimiter.comma columns)
  rw [List.nil_append] at hheader
  rw [← hheader]
  rfl

theorem alone_writeStaged_ok (h : Staging files staged)
    (htext : assembledText files columns parts = .ok text) :
    (writeStaged columns staged parts).alone raised (files.put staged (.file [])) =
      some (.ok (), files.put staged (.file text)) := by
  obtain ⟨more, hmore, htext⟩ := bind_eq_ok.1 htext
  cases htext
  rw [alone_writeStaged h, alone_copyParts_ok h hmore]

theorem alone_writeStaged_error (raised : Bool) (h : Staging files staged)
    (hfault : assembledText files columns parts = .error fault) :
    ∃ fault' content, (writeStaged columns staged parts).alone raised
      (files.put staged (.file [])) = some (.error fault', files.put staged (.file content)) := by
  rw [alone_writeStaged h]
  rcases bind_eq_error.1 hfault with htexts | ⟨more, -, hfault⟩
  · exact alone_copyParts_error h htexts
  · cases hfault

theorem stage_ok (h : files.stagingPlace path = .ok staged) (c : Bytes) :
    files.stage path c = .ok (files.put staged (.file c), staged) := by
  unfold stage
  rw [h]
  rfl

theorem stage_error {io : IoFault} (h : files.stagingPlace path = .error io) (c : Bytes) :
    files.stage path c = .error io := by
  unfold stage
  rw [h]
  rfl

theorem alone_stageEmpty (h : files.stagingPlace path = .ok staged) :
    (stageEmpty path).alone raised files = some (.ok staged, files.put staged (.file [])) := by
  simp only [stageEmpty, Task.alone, Task.finish, stage_ok h]
  rfl

theorem alone_stageEmpty_error {io : IoFault} (h : files.stagingPlace path = .error io) :
    (stageEmpty path).alone raised files = some (.error (.io io), files) := by
  simp only [stageEmpty, Task.alone, Task.finish, stage_error h]
  rfl

/-- Step by step parts become what they become at once. Where the steps fail, so does it, and both
leave the files as they were; only a path into the staged file itself is at fault in another way. -/
theorem alone_assembling (parts : List Part) (path : String) (files : FileTree) (raised : Bool) :
    ∃ r, (assembling parts path).alone raised files =
        some (r, (assembleParts parts path files).2) ∧
      ∀ a, r = .ok a ↔ (assembleParts parts path files).1 = .ok a := by
  unfold assembling assembleParts assemble
  cases hsorted : parts.mergeSort fun p q => p.index.ble q.index with
  | nil => exact ⟨_, rfl, fun a => ⟨fun h => (nomatch h), fun h => nomatch h⟩⟩
  | cons first rest =>
    dsimp only
    cases hplace : files.stagingPlace path with
    | error io =>
      refine ⟨_, Task.alone_bind_error _ (alone_stageEmpty_error hplace), fun a => ?_⟩
      exact ⟨fun h => (nomatch h), fun h => nomatch h⟩
    | ok staged =>
      have hnew := staging_of_place hplace
      rw [Task.bind_eq, Task.alone_bind (alone_stageEmpty hplace), Task.bind_eq]
      cases htext : assembledText files first.columns (first :: rest) with
      | ok text =>
        rw [Task.alone_bind (Task.alone_caught (alone_writeStaged_ok hnew htext))]
        exact ⟨_, rfl, fun a => Iff.rfl⟩
      | error fault =>
        obtain ⟨fault', content, hwrite⟩ := alone_writeStaged_error raised hnew htext
        rw [Task.alone_bind (Task.alone_caught hwrite)]
        refine ⟨.error fault', ?_, fun a => ⟨fun h => (nomatch h), fun h => nomatch h⟩⟩
        show some (_, (files.put staged (.file content)).unstage staged) = some (_, files)
        rw [unstage_put hnew.absent]

/-! ## What each step leaves alone -/

theorem agreeOn_append (h : ¬ staged.Spelled) (files : FileTree) (bytes : Bytes) :
    AgreeOn Location.Spelled files (files.append staged bytes) := by
  unfold append
  split
  · exact agreeOn_put _ h
  · exact AgreeOn.refl _ _

theorem stays_stageEmpty (path : String) (s : FileTree) :
    (stageEmpty path).Stays (AgreeOn Location.Spelled) s
      fun r _ => ∀ staged, r = .ok staged → ¬ staged.Spelled := by
  intro u v _ hv
  cases hv
  beta_reduce
  cases hplace : u.stagingPlace path with
  | error io =>
    rw [stage_error hplace]
    exact ⟨AgreeOn.refl _ _, fun _ h => nomatch h⟩
  | ok place =>
    have hnew := new_stagingPlace hplace
    rw [stage_ok hplace]
    refine ⟨agreeOn_put _ hnew.not_spelled, fun staged h => ?_⟩
    cases h
    exact hnew.not_spelled

theorem stays_copyPart (h : ¬ staged.Spelled) (part : Part) (s : FileTree) :
    (copyPart staged part).Stays (AgreeOn Location.Spelled) s fun _ _ => True := by
  unfold copyPart
  split
  · trivial
  · refine Task.Stays.seq (Task.stays_read (AgreeOn.refl _) fun _ _ => trivial) fun files u => ?_
    refine Task.stays_done_bind (fun text _ => ?_) fun _ _ => trivial
    exact Task.stays_act fun v _ => ⟨agreeOn_append h v text, trivial⟩

theorem stays_copyParts (h : ¬ staged.Spelled) (columns : List String) (parts : List Part)
    (s : FileTree) :
    (copyParts columns staged parts).Stays (AgreeOn Location.Spelled) s fun _ _ => True := by
  induction parts generalizing s with
  | nil => trivial
  | cons part rest ih =>
    unfold copyParts
    split
    · trivial
    · exact (stays_copyPart h part s).seq fun _ u => ih u

/-- No step of assembling changes what a path can lead to, nor do all of them. -/
theorem stays_assembling (parts : List Part) (path : String) (files : FileTree) :
    (assembling parts path).Stays (AgreeOn Location.Spelled) files
      fun _ after => AgreeOn Location.Spelled files after := by
  refine Task.Stays.reached (AgreeOn.refl _) (fun _ _ _ => AgreeOn.trans) ?_
  unfold assembling
  split
  · trivial
  · rename_i first rest _
    refine (stays_stageEmpty path files).bind (fun staged u hstaged => ?_) fun _ _ _ => trivial
    have hnew := hstaged staged rfl
    have hwrite : (writeStaged first.columns staged (first :: rest)).Stays
        (AgreeOn Location.Spelled) u fun _ _ => True :=
      (Task.stays_act fun v _ => ⟨agreeOn_append hnew v _, trivial⟩).seq
        fun _ v => stays_copyParts hnew first.columns (first :: rest) v
    refine hwrite.caught_bind fun r v _ => ?_
    cases r with
    | ok _ => trivial
    | error fault =>
      exact (Task.stays_act fun w _ => ⟨agreeOn_erase hnew, trivial⟩).seq fun _ _ => trivial

/-! ## When the parts become one file -/

theorem exists_partTexts : (∃ text, partTexts files columns parts = .ok text) ↔
    ∀ part ∈ parts, part.columns = columns ∧
      (part.rows ≠ 0 → ∃ text, files.read part.path = .ok text) := by
  have htext : ∀ part : Part, (∃ text, part.text files = .ok text) ↔
      (part.rows ≠ 0 → ∃ text, files.read part.path = .ok text) := by
    intro part
    unfold Part.text
    split
    · rename_i hrows
      exact ⟨fun _ h => absurd hrows h, fun _ => ⟨[], rfl⟩⟩
    · rename_i hrows
      simp only [mapError_eq_ok]
      exact ⟨fun h _ => h, fun h => h hrows⟩
  induction parts with
  | nil => exact ⟨fun _ part hpart => absurd hpart List.not_mem_nil, fun _ => ⟨[], rfl⟩⟩
  | cons part rest ih =>
    rw [List.forall_mem_cons, ← htext, partTexts_cons]
    split
    · rename_i hcolumns
      simp only [bind_eq_ok]
      constructor
      · rintro ⟨_, first, hfirst, more, hmore, -⟩
        exact ⟨⟨hcolumns, first, hfirst⟩, ih.1 ⟨more, hmore⟩⟩
      · rintro ⟨⟨-, first, hfirst⟩, hrest⟩
        obtain ⟨more, hmore⟩ := ih.2 hrest
        exact ⟨_, first, hfirst, more, hmore, rfl⟩
    · rename_i hcolumns
      exact ⟨fun ⟨_, h⟩ => (nomatch h), fun h => absurd h.1.1 hcolumns⟩

/-- A file that has been assembled is staged, and nothing else has changed. -/
theorem assembleParts_staged {a : Assembled} (h : assembleParts parts path files = (.ok a, after)) :
    Staging files a.staged ∧ ∃ text, after = files.put a.staged (.file text) := by
  unfold assembleParts assemble at h
  revert h
  cases parts.mergeSort fun p q => p.index.ble q.index with
  | nil => exact fun h => nomatch h
  | cons first rest =>
    intro h
    split at h
    · rename_i assembled tree hassemble
      obtain ⟨staged, hstaged, hassemble⟩ := bind_eq_ok.1 hassemble
      obtain ⟨text, -, hassemble⟩ := bind_eq_ok.1 hassemble
      cases hassemble
      cases h
      exact ⟨staging_of_place (mapError_eq_ok.1 hstaged), text, rfl⟩
    · cases h

/-- Parts become one file if there are any, all with the same columns, if the files of those with
rows can be read and if there is a place for the new file. -/
theorem exists_assembleParts : (∃ a after, assembleParts parts path files = (.ok a, after)) ↔
    parts ≠ [] ∧ (∃ place, files.stagingPlace path = .ok place) ∧
      (∃ columns, ∀ part ∈ parts, part.columns = columns) ∧
        ∀ part ∈ parts, part.rows ≠ 0 → ∃ text, files.read part.path = .ok text := by
  have hassemble : (∃ a after, assembleParts parts path files = (.ok a, after)) ↔
      ∃ x, assemble parts path files = .ok x := by
    unfold assembleParts
    cases assemble parts path files with
    | ok x => exact ⟨fun _ => ⟨x, rfl⟩, fun _ => ⟨x.1, x.2, rfl⟩⟩
    | error fault => exact ⟨fun ⟨_, _, h⟩ => (nomatch h), fun ⟨_, h⟩ => nomatch h⟩
  have hmem : ∀ part, part ∈ parts.mergeSort (fun p q => p.index.ble q.index) ↔ part ∈ parts :=
    fun part => List.mem_mergeSort
  rw [hassemble]
  unfold assemble
  simp only [← hmem]
  cases hsorted : parts.mergeSort fun p q => p.index.ble q.index with
  | nil =>
    have hnil : parts = [] := by
      have hlength := congrArg List.length hsorted
      rw [List.length_mergeSort] at hlength
      exact List.length_eq_zero_iff.1 hlength
    exact ⟨fun ⟨_, h⟩ => (nomatch h), fun h => absurd hnil h.1⟩
  | cons first rest =>
    have hne : parts ≠ [] := by
      rintro rfl
      rw [List.mergeSort_nil] at hsorted
      cases hsorted
    have hcolumns : ∀ columns, (∀ part ∈ first :: rest, part.columns = columns) →
        first.columns = columns := fun _ h => h first List.mem_cons_self
    dsimp only
    simp only [bind_eq_ok, mapError_eq_ok]
    constructor
    · rintro ⟨_, place, hplace, _, htext, -⟩
      obtain ⟨more, hmore, -⟩ := bind_eq_ok.1 htext
      have hall := exists_partTexts.1 ⟨more, hmore⟩
      exact ⟨hne, ⟨place, hplace⟩, ⟨first.columns, fun part hpart => (hall part hpart).1⟩,
        fun part hpart => (hall part hpart).2⟩
    · rintro ⟨-, ⟨place, hplace⟩, ⟨columns, hall⟩, hreads⟩
      obtain ⟨more, hmore⟩ := exists_partTexts.2 fun part hpart =>
        ⟨(hall part hpart).trans (hcolumns columns hall).symm, hreads part hpart⟩
      exact ⟨_, place, hplace, _, bind_eq_ok.2 ⟨more, hmore, rfl⟩, rfl⟩

/-! ## The order of the parts -/

/-- A part has been written from a table, and its file still is what it was then. -/
def Part.Written (files : FileTree) (part : Part) (table : Table) : Prop :=
  ∃ raised before after,
    (writePart part.index table part.path).alone raised before = some (.ok part, after) ∧
      files.read part.path = after.read part.path

theorem alone_attempt_ok {σ : Type} {change : σ → Outcome σ} {s s' : σ}
    (h : (Task.attempt change).alone raised s = some (.ok (), s')) : change s = .ok s' := by
  cases hc : change s with
  | error fault =>
    simp only [Task.attempt, Task.alone, Task.finish, hc] at h
    cases h
  | ok u =>
    simp only [Task.attempt, Task.alone, Task.finish, hc] at h
    cases h
    rfl

theorem Part.Written.stores {table : Table} (h : Part.Written files part table) :
    Part.Stores files part table := by
  obtain ⟨raised, before, after, hwrite, hread⟩ := h
  obtain ⟨⟨⟩, emptied, -, hwrite⟩ := alone_bind_ok hwrite
  obtain ⟨text, emptied', htext, hwrite⟩ := alone_bind_ok hwrite
  obtain ⟨htext, -⟩ := alone_done_ok htext
  obtain ⟨⟨⟩, written, hfile, hwrite⟩ := alone_bind_ok hwrite
  obtain ⟨hpart, rfl⟩ := alone_done_ok hwrite
  have hcontent := read_writeFile (mapError_eq_ok.1 (alone_attempt_ok hfile))
  have heq := Except.ok.inj hpart
  exact
    { columns := (congrArg Part.columns heq).symm
      rows := (congrArg Part.rows heq).symm
      reads := ⟨text, mapError_eq_ok.1 htext, hread.trans hcontent⟩ }

/-- Distinct numbers put a list in one order only. -/
theorem mergeSort_of_perm {α : Type} {f : α → Nat} {xs ys : List α} (h : ys.Perm xs)
    (hnodup : (xs.map f).Nodup) :
    (ys.mergeSort fun a b => (f a).ble (f b)) = xs.mergeSort fun a b => (f a).ble (f b) := by
  have hxs := List.mergeSort_perm xs fun a b => (f a).ble (f b)
  have hys := List.mergeSort_perm ys fun a b => (f a).ble (f b)
  refine List.Perm.eq_of_pairwise (fun a b ha hb hab hba => ?_)
    (List.pairwise_mergeSort (ble_trans f) (ble_total f) ys)
    (List.pairwise_mergeSort (ble_trans f) (ble_total f) xs) (hys.trans (h.trans hxs.symm))
  have heq := Nat.le_antisymm (Nat.le_of_ble_eq_true hab) (Nat.le_of_ble_eq_true hba)
  exact List.inj_on_of_nodup_map hnodup (h.subset (hys.subset ha)) (hxs.subset hb) heq

theorem assembleParts_of_sorted {sorted : List Part} (h : (parts.mergeSort fun p q =>
    p.index.ble q.index) = sorted) (hsorted : (sorted.map Part.index).Pairwise (· ≤ ·))
    (path : String) (files : FileTree) :
    assembleParts parts path files = assembleParts sorted path files := by
  unfold assembleParts assemble
  rw [h, mergeSort_parts hsorted]

theorem writeLines_cons {d : UInt8} {header : List String} {records : List (List String)}
    (h : ∀ r ∈ records, r.length = header.length) :
    Csv.writeLines d (header :: records) =
      .ok (Csv.writeLine d header ++ records.flatMap (Csv.writeLine d)) := by
  have hfind : (header :: records).find? (fun r => r.length != header.length) = none := by
    rw [List.find?_eq_none, List.forall_mem_cons]
    refine ⟨by simp, fun r hr => ?_⟩
    rw [h r hr]
    simp
  unfold Csv.writeLines
  dsimp only
  rw [hfind]
  rfl

/-- Parts that have been written from tables with the same columns become the lines of one writer:
the header and, in the order of the parts, the rows of the tables. In which order they come does not
matter. -/
theorem assembleParts_of_written {tables : List Table} (hne : parts ≠ [])
    (hwritten : List.Forall₂ (Part.Written files) parts tables)
    (htables : ∀ table ∈ tables, table.Rectangular ∧ table.columns = columns)
    (hindex : (parts.map Part.index).Nodup) :
    ∃ ordered : List (Part × Table), ∃ text, ordered.Perm (parts.zip tables) ∧
      ordered.Pairwise (fun p q => p.1.index < q.1.index) ∧
      Csv.writeLines Delimiter.comma (columns :: ordered.flatMap fun p => p.2.cells) = .ok text ∧
      ∀ parts' path, parts'.Perm parts →
        (∀ place, files.stagingPlace path = .ok place → assembleParts parts' path files =
          (.ok ⟨columns, (ordered.flatMap fun p => p.2.rows).length, place⟩,
            files.put place (.file text))) ∧
        ∀ fault, files.stagingPlace path = .error fault →
          assembleParts parts' path files = (.error (.io fault), files) := by
  obtain ⟨hlength, hzip⟩ := List.forall₂_iff_zip.1 hwritten
  have hfirsts : (parts.zip tables).map Prod.fst = parts := List.map_fst_zip hlength.le
  let index (p : Part × Table) : Nat := p.1.index
  have hnodup : ((parts.zip tables).map index).Nodup := by
    rw [← hfirsts, List.map_map] at hindex
    exact hindex
  let ordered := (parts.zip tables).mergeSort fun p q => (index p).ble (index q)
  have hperm : ordered.Perm (parts.zip tables) := List.mergeSort_perm _ _
  have hle : ordered.Pairwise fun p q => index p ≤ index q :=
    (List.pairwise_mergeSort (ble_trans index) (ble_total index) _).imp Nat.le_of_ble_eq_true
  have hlt : ordered.Pairwise fun p q => index p < index q := by
    have hne := List.pairwise_map.1 ((hperm.map index).nodup_iff.2 hnodup)
    exact hle.imp₂ (fun _ _ => lt_of_le_of_ne) hne
  have hsorted : ((ordered.map Prod.fst).map Part.index).Pairwise (· ≤ ·) := by
    rw [List.map_map]
    exact List.pairwise_map.2 hle
  have hstores : List.Forall₂ (Part.Stores files) (ordered.map Prod.fst)
      (ordered.map Prod.snd) := by
    rw [List.forall₂_map_left_iff, List.forall₂_map_right_iff, List.forall₂_same]
    exact fun p hp => (hzip (hperm.subset hp)).stores
  have hcolumns : ∀ table ∈ ordered.map Prod.snd, table.Rectangular ∧ table.columns = columns := by
    intro table htable
    obtain ⟨p, hp, rfl⟩ := List.mem_map.1 htable
    exact htables p.2 (List.of_mem_zip (hperm.subset hp)).2
  have htext : Csv.writeLines Delimiter.comma (columns :: ordered.flatMap fun p => p.2.cells) =
      .ok (outputText columns (ordered.map Prod.snd)) := by
    rw [writeLines_cons, outputText, List.flatMap_assoc, List.flatMap_map]
    · rfl
    · intro r hr
      obtain ⟨p, hp, hr⟩ := List.mem_flatMap.1 hr
      obtain ⟨row, hrow, rfl⟩ := List.mem_map.1 hr
      obtain ⟨hrectangular, hsame⟩ := hcolumns p.2 (List.mem_map_of_mem hp)
      rw [List.length_map, hrectangular.2 row hrow, hsame]
  refine ⟨ordered, _, hperm, hlt, htext, fun parts' path hparts => ?_⟩
  have hassemble : assembleParts parts' path files =
      assembleParts (ordered.map Prod.fst) path files := by
    refine assembleParts_of_sorted ?_ hsorted path files
    rw [mergeSort_of_perm hparts hindex, ← mergeSort_parts hsorted]
    refine (mergeSort_of_perm ?_ hindex).symm
    exact (hperm.map Prod.fst).trans (.of_eq hfirsts)
  have hnonempty : ordered ≠ [] := by
    intro hnil
    rw [hnil, List.nil_perm] at hperm
    rw [hperm, List.map_nil] at hfirsts
    exact hne hfirsts.symm
  rw [hassemble]
  refine ⟨fun place hplace => (assembleParts_eq_ok hsorted hstores).2 ⟨hplace, ?_, ?_, ?_, rfl⟩,
    fun fault hplace => ?_⟩
  · exact fun hnil => hnonempty (List.map_eq_nil_iff.1 hnil)
  · exact fun table htable => (hcolumns table htable).2
  · rw [rowsOf, List.flatMap_map]
  · obtain ⟨p, rest, hcons⟩ := List.exists_cons_of_ne_nil hnonempty
    unfold assembleParts assemble
    rw [mergeSort_parts hsorted, hcons, List.map_cons]
    dsimp only
    rw [hplace]
    rfl

/-! ## As a whole or not at all -/

/-- Parts become one file as a whole or not at all. -/
structure AssemblesAtomically (files : FileTree) (parts : List Part) (path : String) : Prop where
  /-- The steps, together, come to what assembling at once comes to. -/
  steps : ∀ raised, ∃ r,
    (assembling parts path).alone raised files = some (r, (assembleParts parts path files).2) ∧
      ∀ a, r = .ok a ↔ (assembleParts parts path files).1 = .ok a
  /-- No step changes anything that a path can lead to. -/
  keeps : (assembling parts path).Stays (AgreeOn Location.Spelled) files
    fun _ after => AgreeOn Location.Spelled files after
  /-- There are parts, they have the same columns, and no file of a part with rows is missing. -/
  succeeds : (∃ a after, assembleParts parts path files = (.ok a, after)) ↔
    parts ≠ [] ∧ (∃ place, files.stagingPlace path = .ok place) ∧
      (∃ columns, ∀ part ∈ parts, part.columns = columns) ∧
        ∀ part ∈ parts, part.rows ≠ 0 → ∃ text, files.read part.path = .ok text
  /-- Before the file takes its place every path shows what it did, and without it the files are
  what they were. -/
  uncommitted : ∀ a after, assembleParts parts path files = (.ok a, after) →
    (∀ path' : String, after.read path' = files.read path') ∧ after.unstage a.staged = files
  failed : ∀ fault after, assembleParts parts path files = (.error fault, after) → after = files

theorem assemblesAtomically (files : FileTree) (parts : List Part) (path : String) :
    AssemblesAtomically files parts path where
  steps := alone_assembling parts path files
  keeps := stays_assembling parts path files
  succeeds := exists_assembleParts
  uncommitted a after h := by
    obtain ⟨hnew, text, rfl⟩ := assembleParts_staged h
    refine ⟨fun path' => ?_, unstage_put hnew.absent _⟩
    have hagree : AgreeOn Location.Spelled files (files.put a.staged (.file text)) :=
      agreeOn_put _ hnew.not_spelled
    exact (hagree.read (p := path') fun _ h => h).symm
  failed _ _ h := assembleParts_error h

/-- Parts that have been written from tables with the same columns become the lines of one writer,
the header and, in the order of the parts, the rows of the tables, in whatever order the parts come.
And whatever the parts are, they become one file as a whole or not at all. -/
theorem assembleParts_atomic (files : FileTree) :
    (∀ parts tables columns, parts ≠ [] → List.Forall₂ (Part.Written files) parts tables →
      (∀ table ∈ tables, table.Rectangular ∧ table.columns = columns) →
      (parts.map Part.index).Nodup →
      ∃ ordered : List (Part × Table), ∃ text, ordered.Perm (parts.zip tables) ∧
        ordered.Pairwise (fun p q => p.1.index < q.1.index) ∧
        Csv.writeLines Delimiter.comma (columns :: ordered.flatMap fun p => p.2.cells) = .ok text ∧
        ∀ parts' path, parts'.Perm parts →
          (∀ place, files.stagingPlace path = .ok place → assembleParts parts' path files =
            (.ok ⟨columns, (ordered.flatMap fun p => p.2.rows).length, place⟩,
              files.put place (.file text))) ∧
          ∀ fault, files.stagingPlace path = .error fault →
            assembleParts parts' path files = (.error (.io fault), files)) ∧
    ∀ parts path, AssemblesAtomically files parts path :=
  ⟨fun _ _ _ hne hwritten htables hindex => assembleParts_of_written hne hwritten htables hindex,
    assemblesAtomically files⟩

/-- A part without rows, one with a row, and one whose only column is empty in both rows. -/
def threeTables : List Table :=
  [⟨["id"], [.text], []⟩, ⟨["id"], [.text], [[.text "a,b"]]⟩, ⟨["id"], [.text], [[.null], [.null]]⟩]

def threeParts : List Part :=
  [⟨0, ["id"], 0, "p0"⟩, ⟨1, ["id"], 1, "p1"⟩, ⟨2, ["id"], 2, "p2"⟩]

def threeFiles : FileTree :=
  ((FileTree.empty.put [.given "p0"] (.file [])).put
    [.given "p1"] (.file (Utf8.encode "\"a,b\"\n"))).put
      [.given "p2"] (.file (Utf8.encode "\"\"\n\"\"\n"))

theorem assembleParts_atomic_threeParts :
    assembleParts threeParts.reverse "out.csv" threeFiles =
      (.ok ⟨["id"], 3, [.fresh 0]⟩, threeFiles.put [.fresh 0]
        (.file (Utf8.encode "id\n\"a,b\"\n\"\"\n\"\"\n"))) := by
  have hwritten : List.Forall₂ (Part.Written threeFiles) threeParts threeTables :=
    .cons ⟨false, FileTree.empty, _, rfl, rfl⟩
      (.cons ⟨false, FileTree.empty, _, rfl, rfl⟩ (.cons ⟨false, FileTree.empty, _, rfl, rfl⟩ .nil))
  have htables : ∀ table ∈ threeTables, table.Rectangular ∧ table.columns = ["id"] := by
    unfold Table.Rectangular
    decide
  obtain ⟨ordered, text, -, -, -, hall⟩ := (assembleParts_atomic threeFiles).1 threeParts
    threeTables ["id"] (by decide) hwritten htables (by decide)
  have hplace : threeFiles.stagingPlace "out.csv" = .ok [.fresh 0] := rfl
  rw [(hall _ "out.csv" (List.reverse_perm _)).1 _ hplace,
    ← (hall threeParts "out.csv" (.refl _)).1 _ hplace]
  unfold assembleParts assemble
  rw [mergeSort_parts (by decide)]
  rfl

end Equijoin
