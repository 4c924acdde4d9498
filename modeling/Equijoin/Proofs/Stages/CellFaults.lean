import Equijoin.Proofs.Stages.Joining
import Equijoin.Proofs.Tables.CellFaults

/-! # Tasks that fail for a cell

* `avoids_prepare`: a dataset is never found unfit for a cell while it is prepared.
* `yields_shardTask_cell`: the task that splits a dataset fails for a cell where splitting does.
* `yields_joinTask_cell`: the task of a shard fails for a cell where one of its files cannot be
  loaded for this cell.
* `Dataset.MisreadIn`, `Dataset.SplitInto.misread`: what such a cell has to do with the file of its
  dataset.
-/

set_option autoImplicit false

namespace Equijoin

open FileTree

variable {α : Type} {row shard : Nat} {column raw : String} {fault : CellFault} {s u : Session}

theorem yields_onFiles {t : Task FileTree α} {r : Outcome α} :
    t.onFiles.Yields s r u ↔ ∃ files, t.Yields s.files r files ∧ u = s.withFiles files :=
  @Task.yields_within _ _ _ Session.files Session.withFiles (fun _ _ => rfl) (fun _ _ _ => rfl)
    (fun _ => rfl) t s u r

/-! ## Preparing -/

theorem avoids_scanRecords (rows : Nat) (cs : List Candidate)
    (records : List (Except Csv.Fault (List String))) :
    (scanRecords (σ := FileTree) rows cs records).Avoids (.cell row column raw fault) := by
  induction records generalizing rows cs with
  | nil =>
    rw [scanRecords]
    exact Task.avoids_done (by simp)
  | cons record records ih =>
    cases cs with
    | nil =>
      rw [scanRecords]
      exact Task.avoids_done (by simp)
    | cons c cs =>
      cases record with
      | error fault =>
        rw [scanRecords]
        exact Task.avoids_done (by simp)
      | ok cells =>
        rw [scanRecords]
        exact (Task.avoids_check (by simp)).bind fun _ => ih _ _

theorem avoids_findDelimiter (d : Dataset) :
    d.findDelimiter.Avoids (.cell row column raw fault) := by
  unfold Dataset.findDelimiter
  split
  · exact Task.avoids_done (by simp)
  · exact Task.avoids_read.bind fun _ => (Task.avoids_done (mapError_ne_error (by simp) _)).bind
      fun _ => Task.avoids_done (by simp)

theorem avoids_prepare (d : Dataset) : d.prepare.Avoids (.cell row column raw fault) := by
  refine (avoids_findDelimiter d).bind fun delimiter => Task.Avoids.bind ?_ fun _ => ?_
  · refine Task.avoids_read.bind fun files => ?_
    refine (Task.avoids_done (readSheet_ne_error (by simp) files _ _)).bind fun sheet => ?_
    refine (Task.avoids_done (mapError_ne_error (by simp) _)).bind fun types => ?_
    refine (Task.avoids_done (mapError_ne_error (by simp) _)).bind fun places => ?_
    exact avoids_scanRecords _ _ _
  · exact Task.avoids_done (by simp)

/-! ## Splitting -/

theorem yields_shardTask_cell {count i : Nat} {folder : Folder} {d : Dataset}
    (h : (shardTask count folder i d).Yields s (.error (.cell row column raw fault)) u) :
    1 < count ∧ ∃ sheet types places, d.Opened s.files d.separator sheet types places ∧
      ∃ place ∈ places, sheet.Misread d.schema row place column raw fault := by
  have hend : ∀ (set : ShardSet) (v : Session),
      ¬ ((Task.emit (.datasetSharded i set.rows)).bind fun _ => Task.succeed set).Yields v
        (.error (.cell row column raw fault)) u := by
    intro set v h
    cases (Task.yields_act_bind.1 h).1
  rcases Task.yields_bind_error.1 h with ⟨set, v, -, h⟩ | h
  · dsimp only at h
    split at h
    · exact absurd (Task.yields_act_bind.1 h) (hend set _)
    · exact absurd h (hend set v)
  · obtain ⟨files, h, -⟩ := yields_onFiles.1 h
    exact yields_shard_cell h

/-! ## Joining -/

theorem yields_load {input : ShardInput} {files v : FileTree} {r : Outcome (Table × List Nat)}
    (h : input.load.Yields files r v) :
    files = v ∧ ∀ row column raw fault, r = .error (.cell row column raw fault) →
      Table.load files input.path input.delimiter input.schema =
        .error (.cell row column raw fault) := by
  have h := Task.yields_read_bind.1 h
  rcases Task.yields_done_bind.1 h with ⟨table, -, h⟩ | ⟨e, he, rfl, rfl⟩
  · rcases Task.yields_done_bind.1 h with ⟨places, -, rfl, rfl⟩ | ⟨e, he, rfl, rfl⟩
    · exact ⟨rfl, fun _ _ _ _ hr => nomatch hr⟩
    · refine ⟨rfl, fun _ _ _ _ hr => ?_⟩
      cases hr
      exact absurd he (mapError_ne_error (by simp) _)
  · refine ⟨rfl, fun _ _ _ _ hr => ?_⟩
    cases hr
    exact he

theorem yields_joinParts_cell {inputs : List ShardInput} {leftKey : List Nat} {left : Table}
    {files v : FileTree}
    (h : (joinParts leftKey left inputs).Yields files (.error (.cell row column raw fault)) v) :
    ∃ input ∈ inputs, Table.load files input.path input.delimiter input.schema =
      .error (.cell row column raw fault) := by
  induction inputs generalizing left with
  | nil => cases h.1
  | cons input rest ih =>
    rw [joinParts] at h
    rcases Task.yields_check_bind.1 h with h | ⟨hr, -⟩
    · rcases Task.yields_bind_error.1 h with ⟨right, w, hload, h⟩ | hload
      · obtain ⟨rfl, -⟩ := yields_load hload
        obtain ⟨input', hinput', hfails⟩ := ih h
        exact ⟨input', List.mem_cons_of_mem _ hinput', hfails⟩
      · exact ⟨input, List.mem_cons_self, (yields_load hload).2 _ _ _ _ rfl⟩
    · cases hr

theorem yields_joinShard_cell {inputs : List ShardInput} {files v : FileTree}
    (h : (joinShard inputs).Yields files (.error (.cell row column raw fault)) v) :
    ∃ input ∈ inputs, Table.load files input.path input.delimiter input.schema =
      .error (.cell row column raw fault) := by
  cases inputs with
  | nil => cases h.1
  | cons first rest =>
    unfold joinShard at h
    dsimp only at h
    split at h
    · rename_i e hkeys
      cases h.1
      obtain ⟨i, expected, actual, hfault⟩ := unequalKeys?_eq_some hkeys
      cases hfault
    · rcases Task.yields_bind_error.1 h with ⟨left, w, hload, h⟩ | hload
      · obtain ⟨rfl, -⟩ := yields_load hload
        obtain ⟨input, hinput, hfails⟩ := yields_joinParts_cell h
        exact ⟨input, List.mem_cons_of_mem _ hinput, hfails⟩
      · exact ⟨first, List.mem_cons_self, (yields_load hload).2 _ _ _ _ rfl⟩

theorem avoids_writePart (table : Table) (path : FilePath) :
    (writePart shard table path).Avoids (.cell row column raw fault) :=
  (Task.avoids_attempt fun _ => mapError_ne_error (by simp) _).bind fun _ =>
    (Task.avoids_done (mapError_ne_error (by simp) _)).bind fun _ =>
      (Task.avoids_attempt fun _ => mapError_ne_error (by simp) _).bind fun _ =>
        Task.avoids_done (by simp)

theorem yields_reportPart {part r : Outcome Part} (h : (reportPart shard part).Yields s r u) :
    r = part := by
  have h := Task.yields_act_bind.1 h
  rcases Task.yields_done_bind.1 h with ⟨p, rfl, h⟩ | ⟨e, rfl, rfl, -⟩
  · exact (Task.yields_act_bind.1 h).1.symm
  · rfl

theorem yields_noteWait {waited : Duration} {r : Outcome Unit} {v : Session}
    (h : (noteWait waited).Yields s r v) : r = .ok () ∧ v.files = s.files := by
  unfold noteWait at h
  split at h
  · obtain ⟨rfl, rfl⟩ := h
    exact ⟨rfl, rfl⟩
  · obtain ⟨rfl, rfl⟩ := Task.yields_act.1 (Task.yields_act_bind.1 h)
    exact ⟨rfl, rfl⟩

theorem yields_joinAdmitted_cell {datasets : List Dataset} {sets : List ShardSet} {folder : Folder}
    {waited : Duration} (h : (joinAdmitted datasets sets folder waited shard).Yields s
      (.error (.cell row column raw fault)) u) :
    ∃ input ∈ shardInputs datasets sets shard,
      Table.load s.files input.path input.delimiter input.schema =
        .error (.cell row column raw fault) := by
  rw [joinAdmitted_eq] at h
  rcases Task.yields_bind_error.1 h with ⟨⟨⟩, o, hnote, h⟩ | hnote
  swap
  · cases (yields_noteWait hnote).1
  rw [← (yields_noteWait hnote).2]
  rcases Task.yields_check_bind.1 h with h | ⟨hr, -⟩
  · have h := Task.yields_act_bind.1 (Task.yields_act_bind.1 h)
    obtain ⟨joined, v, hjoin, h⟩ := Task.yields_caught_bind.1 h
    obtain ⟨part, w, hpart, h⟩ := Task.yields_caught_bind.1 (Task.yields_act_bind.1 h)
    obtain rfl := yields_reportPart h
    -- the fault of a part that is not written is that of its tables
    rcases Task.yields_done_bind.1 hpart with ⟨table, -, hpart⟩ | ⟨e, rfl, he, -⟩
    · obtain ⟨files, hpart, -⟩ := yields_onFiles.1 hpart
      exact absurd hpart (avoids_writePart table _ _ _)
    · cases he
      obtain ⟨files, hjoin, -⟩ := yields_onFiles.1 hjoin
      exact yields_joinShard_cell hjoin
  · cases hr

theorem yields_joinTask_cell {datasets : List Dataset} {sets : List ShardSet} {folder : Folder}
    {waits : Nat → Duration} (h : (joinTask datasets sets folder waits shard).Yields s
      (.error (.cell row column raw fault)) u) :
    ∃ input ∈ shardInputs datasets sets shard,
      Table.load s.files input.path input.delimiter input.schema =
        .error (.cell row column raw fault) := by
  rcases Task.yields_check_bind.1 h with h | ⟨hr, -⟩
  · rcases Task.yields_bind_error.1 h with ⟨⟨⟩, v, hpermit, h⟩ | hpermit
    · obtain ⟨part, w, hpart, h⟩ := Task.yields_caught_bind.1 h
      obtain ⟨rfl, -⟩ := Task.yields_act_bind.1 h
      rw [← admit?_files hpermit.of_await.2]
      exact yields_joinAdmitted_cell hpart
    · cases hpermit.of_await.1
  · cases hr

/-! ## The files of a shard -/

section Datasets

variable {t after : FileTree} {d d' : Dataset} {c : Coercion} {delimiter : UInt8}
  {sheet sheet' : Csv.Sheet} {types types' : List ColumnType} {places places' : List Nat}

/-- A file of a shard has the cell in the row that is reported. If the file is read as it was
written, the cell is none of a key column, and the row counts only those records of the dataset
that go to the same shard. -/
def Dataset.MisreadIn (files : FileTree) (d : Dataset) (delimiter : UInt8) (count : Nat)
    (sheet : Csv.Sheet) (places : List Nat) (row : Nat) (column raw : String)
    (fault : CellFault) : Prop :=
  ∃ types routed shard part place, d.Routes files delimiter count sheet types places routed ∧
    shard < count ∧
    Csv.Sheet.read delimiter (shardText delimiter sheet.header routed shard) = .ok part ∧
    part.Misread d.schema row place column raw fault ∧
    (Csv.Separates delimiter → Csv.Legible delimiter sheet.header → place ∉ places ∧
      ∃ n r, routed[n]? = some r ∧ r.shard = shard ∧ row = earlierIn routed shard n + 2 ∧
        sheet.Misread d.schema (n + 2) place column raw fault)

/-- A dataset that has been prepared is opened once more as it was then. -/
theorem Dataset.Prepared.reopened (h : d.Prepared t d' c delimiter sheet types places)
    (hopen : d'.Opened t d'.separator sheet' types' places') : sheet' = sheet ∧ places' = places := by
  have hread := hopen.read
  rw [h.path_eq, h.read] at hread
  cases hread
  have hplaced := hopen.placed
  rw [show d'.key = d.key by rw [h.result], h.scanned.placed] at hplaced
  exact ⟨rfl, (Except.ok.inj hplaced).symm⟩

/-- Where the cell is for which a file of a shard cannot be loaded. -/
theorem Dataset.Prepared.misread {files : FileTree} {dir : Scratch} {i count : Nat} {set : ShardSet}
    (h : d.Prepared t d' c delimiter sheet types places) (hsame : AgreeOn Location.Spelled t files)
    (hsplit : d'.SplitInto files after d'.separator dir i count set)
    (hafter : AgreeOn Location.Spelled t after) (hshard : shard < count)
    (hload : Table.load after (set.file shard) set.delimiter d'.schema =
      .error (.cell row column raw fault)) :
    (count ≤ 1 ∧ ∃ place, sheet.Misread d'.schema row place column raw fault) ∨
      1 < count ∧ d'.MisreadIn t delimiter count sheet places row column raw fault := by
  obtain ⟨part, hpart, place, hmisread⟩ := Table.load_eq_cell hload
  rcases hsplit with ⟨hcount, rfl⟩ | ⟨hcount, sheet', types', places', routed, hroutes, rfl, hreads⟩
  · obtain rfl : shard = 0 := by omega
    have hread : t.readSheet d'.path d'.separator = .ok part := by
      rw [← hpart]
      exact hafter.readSheet (p := d'.path) (fun _ hl => hl) _
    rw [h.path_eq, h.read] at hread
    cases hread
    exact .inl ⟨hcount, place, hmisread⟩
  · replace hroutes := hroutes.congr hsame.symm
    obtain ⟨rfl, rfl⟩ := h.reopened hroutes.toOpened
    rw [h.separator_eq] at hroutes hreads hpart
    have hpart' : Csv.Sheet.read delimiter (shardText delimiter sheet'.header routed shard) =
        .ok part := by
      rw [file_shardFiles _ _ hshard] at hpart
      obtain ⟨text, htext, hpart⟩ := readSheet_eq_ok.1 hpart
      cases (hreads shard hshard).symm.trans htext
      exact hpart
    exact .inr ⟨hcount, types', routed, shard, part, place, hroutes, hshard, hpart', hmisread,
      fun hseparates hlegible => hroutes.misread hseparates hlegible hpart' hmisread⟩

end Datasets

end Equijoin
