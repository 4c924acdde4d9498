import Equijoin.Proofs.Stages.Joining
import Equijoin.Proofs.Tasks.Confinement

/-! # What tasks do in a scratch directory

Below a scratch directory a task has some files of its own. It sees and changes no others there,
whatever the other tasks do.

* `Task.Writes`, `Task.Reads`: the locations at which a task can change something, and those at
  which something can make a difference to it.
* `Scratch.Confines`: a task keeps to what it owns; `Scratch.Confines.owns`,
  `Scratch.Confines.sees`: what it writes and what it reads.
* `confines_prepare`, `confines_shardTask`, `confines_joinTask`: the tasks of all stages.
-/

set_option autoImplicit false

namespace Equijoin

open FileTree

variable {α β : Type} {dir : Scratch} {own : Location → Prop} {l : Location}

/-! ## Reading and writing -/

/-- The sessions differ in nothing but what stands at the location. -/
def Session.DifferAt (l : Location) (s u : Session) : Prop :=
  u = s.withFiles u.files ∧ AgreeOn (· ≠ l) s.files u.files

/-- A step of the task can change what stands at the location. -/
def Task.Writes (t : Task Session α) (l : Location) : Prop :=
  t.Changes fun s => s.files.nodeAt? l

/-- What stands at the location can make a difference to the task. -/
def Task.Reads (t : Task Session α) (l : Location) : Prop := ¬ t.Blind (Session.DifferAt l)

namespace Scratch

/-- The location is not below the directory, or the task owns it. -/
def Sees (dir : Scratch) (own : Location → Prop) (l : Location) : Prop :=
  dir.location <+: l → l = dir.location ∨ own l

def footing (dir : Scratch) (own : Location → Prop) : Footing FileTree where
  agrees := AgreeOn (dir.Sees own)
  moves := AgreeOn fun l => ¬ own l

/-- Of the session the task changes only the files that it owns, and below the directory it looks
at no other ones. -/
def Confines (dir : Scratch) (own : Location → Prop) (t : Task Session α) : Prop :=
  ((dir.footing own).inside Session.files Session.withFiles).Confines t

variable {t : Task Session α}

theorem Confines.owns (h : dir.Confines own t) (hwrites : t.Writes l) : own l := by
  obtain ⟨s, s', hmove, hview⟩ := Footing.Confines.moves_of_changes h hwrites
  by_contra hown
  exact hview (hmove.2 l hown).symm

theorem Confines.sees (h : dir.Confines own t) (hreads : t.Reads l) : dir.Sees own l := by
  by_contra hsees
  apply hreads
  refine Footing.Confines.blind (fun s u hsu => ?_) (fun s u s' u' hsu hs hu hagree => ?_) h
  · refine ⟨hsu.1, hsu.2.mono fun k hk hkl => hsees ?_⟩
    rw [← hkl]
    exact hk
  · refine ⟨hagree.1, hagree.2.1, fun k hk => ?_⟩
    by_cases hown : own k
    · exact hagree.2.2 k fun _ => .inr hown
    -- neither step changes what the task does not own
    · calc s'.files.nodeAt? k = s.files.nodeAt? k := (hs.2 k hown).symm
        _ = u.files.nodeAt? k := hsu.2.2 k hk
        _ = u'.files.nodeAt? k := hu.2 k hown

/-! ## Paths -/

theorem sees_spelled (hdir : ¬ dir.location.Spelled) (path : String) :
    (FilePath.spelled path).Seen (dir.Sees own) := by
  intro l hl hbelow
  exact absurd (fun serial hs => hl serial (hbelow.subset hs)) hdir

/-- The path is that of a file in the directory which the task owns. -/
def Holds (dir : Scratch) (own : Location → Prop) (p : FilePath) : Prop :=
  ∃ name, p = .inside dir name ∧ own (dir.location ++ [.given name])

theorem Holds.seen {p : FilePath} (h : dir.Holds own p) : p.Seen (dir.Sees own) := by
  obtain ⟨name, rfl, hown⟩ := h
  exact ⟨fun _ => .inl rfl, fun _ => .inr hown⟩

theorem Holds.leads {p : FilePath} (h : dir.Holds own p) (hl : p.Leads l) : own l := by
  obtain ⟨name, rfl, hown⟩ := h
  rw [show l = _ from hl]
  exact hown

theorem holds_shardPath (dir : Scratch) (i s : Nat) :
    dir.Holds (ownsShards dir i) (shardPath (.scratch dir) i s) :=
  ⟨shardName i s, rfl, s, rfl⟩

theorem holds_shardPath_shard (dir : Scratch) (i s : Nat) :
    dir.Holds (ownsShard dir s) (shardPath (.scratch dir) i s) :=
  ⟨shardName i s, rfl, .inl ⟨i, rfl⟩⟩

theorem holds_partPath (dir : Scratch) (s : Nat) :
    dir.Holds (ownsShard dir s) (partPath (.scratch dir) s) := ⟨partName s, rfl, .inr rfl⟩

end Scratch

/-! ## Steps -/

theorem confines_onFiles {task : Task FileTree α} (h : (dir.footing own).Confines task) :
    dir.Confines own task.onFiles :=
  @Footing.Confines.within _ _ α (dir.footing own) Session.files Session.withFiles
    (fun _ _ => rfl) (fun _ _ _ => rfl) task h

/-- A change of what is not a file. -/
theorem confines_aside {change : Session → Session}
    (h : ∀ s files, change (s.withFiles files) = (change s).withFiles files) :
    dir.Confines own (Task.act change) := by
  have hfiles : ∀ s, (change s).files = s.files := by
    intro s
    have hsame : change s = (change s).withFiles s.files := h s s.files
    rw [hsame]
    rfl
  refine Footing.confines_act (fun s => ?_) fun s u hsu => ⟨?_, ?_⟩
  · show AgreeOn _ s.files (change s).files
    rw [hfiles]
    exact AgreeOn.refl _ _
  · rw [hfiles, ← h, ← hsu.1]
  · rw [hfiles, hfiles]
    exact hsu.2

theorem confines_admit : dir.Confines own (Task.await Session.admit?) := by
  refine Footing.confines_await (fun s s' hs => ?_) fun s u hsu => ?_
  · show AgreeOn _ s.files s'.files
    rw [admit?_files hs]
    exact AgreeOn.refl _ _
  · obtain ⟨hu, hagree⟩ := hsu
    have hpermits : u.permits = s.permits := by
      rw [hu]
      rfl
    unfold Session.admit?
    rw [hpermits]
    split
    · exact .none
    · refine .some ⟨?_, hagree⟩
      rw [hu]
      rfl

theorem confines_change {change : FileTree → Except IoFault FileTree} {f : IoFault → Fault}
    (hmove : ∀ t t', change t = .ok t' → AgreeOn (fun l => ¬ own l) t t')
    (hsame : ∀ t u, AgreeOn (dir.Sees own) t u →
      Alike (AgreeOn (dir.Sees own)) (change t) (change u)) :
    (dir.footing own).Confines (Task.attempt fun files => (change files).mapError f) :=
  Footing.confines_attempt (fun t => AgreeOn.refl _ t)
    (fun t t' ht => hmove t t' (mapError_eq_ok.1 ht)) fun t u htu => (hsame t u htu).mapError f

/-! ## Datasets are prepared -/

/-- A task that opens a dataset first. -/
theorem confines_opened (hdir : ¬ dir.location.Spelled) {d : Dataset} {delimiter : UInt8}
    {f : Csv.Sheet → List ColumnType → List Nat → Task FileTree α}
    (h : ∀ sheet types places, (dir.footing own).Confines (f sheet types places)) :
    (dir.footing own).Confines (do
      let files ← Task.read
      let sheet ← Task.ofOutcome (files.readSheet d.path delimiter)
      let types ← Task.ofOutcome (d.schema.resolveSheet sheet)
      let places ← Task.ofOutcome ((positions sheet.header d.key).mapError Fault.schema)
      f sheet types places) := by
  refine Footing.confines_read_bind (fun t => AgreeOn.refl _ t) (fun t u htu => ?_) fun t => ?_
  · rw [AgreeOn.readSheet htu (Scratch.sees_spelled hdir _)]
  · exact (Footing.confines_done _).bind fun sheet => (Footing.confines_done _).bind fun types =>
      (Footing.confines_done _).bind fun places => h sheet types places

theorem confines_scanRecords {F : Footing FileTree} (rows : Nat) (cs : List Candidate)
    (records : List (Except Csv.Fault (List String))) :
    F.Confines (scanRecords rows cs records) := by
  induction records generalizing rows cs with
  | nil =>
    rw [scanRecords]
    trivial
  | cons record records ih =>
    cases cs with
    | nil =>
      rw [scanRecords]
      trivial
    | cons c cs =>
      cases record with
      | error fault =>
        rw [scanRecords]
        trivial
      | ok cells =>
        rw [scanRecords]
        exact Footing.confines_check.bind fun _ => ih _ _

theorem confines_prepare (hdir : ¬ dir.location.Spelled) (d : Dataset) :
    (dir.footing own).Confines d.prepare := by
  refine Footing.Confines.bind ?_ fun delimiter => ?_
  · unfold Dataset.findDelimiter
    split
    · trivial
    · refine Footing.confines_read_bind (fun t => AgreeOn.refl _ t) (fun t u htu => ?_) fun t => ?_
      · rw [AgreeOn.sniff htu (Scratch.sees_spelled hdir _)]
      · exact (Footing.confines_done _).bind fun found => trivial
  · refine Footing.Confines.bind ?_ fun done => trivial
    exact confines_opened hdir fun sheet types places => confines_scanRecords _ _ _

/-! ## Datasets are split -/

theorem confines_routeRecords {F : Footing FileTree} (columns : List KeyColumn) (count row : Nat)
    (earlier : List Routed) (records : List (Except Csv.Fault (List String))) :
    F.Confines (routeRecords columns count row earlier records) := by
  induction records generalizing row earlier with
  | nil =>
    rw [routeRecords]
    trivial
  | cons record records ih =>
    cases record with
    | error fault =>
      rw [routeRecords]
      trivial
    | ok cells =>
      rw [routeRecords]
      exact Footing.confines_check.bind fun _ => (Footing.confines_done _).bind fun key => ih _ _

theorem confines_writeShards {contents : List (FilePath × Bytes)}
    (h : ∀ e ∈ contents, dir.Holds own e.1) :
    (dir.footing own).Confines (writeShards contents) := by
  refine confines_change (fun t t' ht => ?_) fun t u htu => ?_
  · exact agreeOn_writeFiles ht fun e he l hl hnot => hnot ((h e he).leads hl)
  · exact htu.writeFiles fun e he => (h e he).seen

theorem confines_shard (hdir : ¬ dir.location.Spelled) (d : Dataset) (i : Nat) (delimiter : UInt8)
    (count : Nat) : (dir.footing (ownsShards dir i)).Confines
      (d.shard i delimiter count (.scratch dir)) := by
  unfold Dataset.shard
  split
  · trivial
  have hpaths : ∀ p ∈ (List.range count).map (shardPath (.scratch dir) i),
      dir.Holds (ownsShards dir i) p := by
    intro p hp
    obtain ⟨s, -, rfl⟩ := List.mem_map.1 hp
    exact Scratch.holds_shardPath dir i s
  refine confines_opened hdir fun sheet types places => ?_
  refine Footing.Confines.bind (confines_writeShards fun e he => ?_) fun _ => ?_
  · obtain ⟨p, hp, rfl⟩ := List.mem_map.1 he
    exact hpaths p hp
  refine (confines_routeRecords _ _ _ _ _).bind fun routed => ?_
  refine Footing.Confines.bind (confines_writeShards fun e he => ?_) fun _ => trivial
  exact hpaths e.1 (List.of_mem_zip he).1

theorem confines_shardTask (hdir : ¬ dir.location.Spelled) (count i : Nat) (d : Dataset) :
    dir.Confines (ownsShards dir i) (shardTask count (.scratch dir) i d) := by
  have hend : ∀ set : ShardSet, dir.Confines (ownsShards dir i)
      ((Task.emit (.datasetSharded i set.rows)).bind fun _ => Task.succeed set) := fun set =>
    Footing.Confines.bind (confines_aside fun _ _ => rfl) fun _ => trivial
  unfold shardTask
  refine Footing.Confines.bind (confines_onFiles (confines_shard hdir d i _ count)) fun set => ?_
  dsimp only
  split
  · exact Footing.Confines.bind (confines_aside fun _ _ => rfl) fun _ => hend set
  · exact hend set

/-! ## Shards are joined -/

theorem confines_load {input : ShardInput} (h : input.path.Seen (dir.Sees own)) :
    (dir.footing own).Confines input.load := by
  refine Footing.confines_read_bind (fun t => AgreeOn.refl _ t) (fun t u htu => ?_) fun t => ?_
  · rw [AgreeOn.load htu h]
  · exact (Footing.confines_done _).bind fun table => (Footing.confines_done _).bind fun places =>
      trivial

theorem confines_joinParts {inputs : List ShardInput}
    (h : ∀ input ∈ inputs, input.path.Seen (dir.Sees own)) (leftKey : List Nat) (left : Table) :
    (dir.footing own).Confines (joinParts leftKey left inputs) := by
  induction inputs generalizing left with
  | nil => trivial
  | cons input rest ih =>
    refine Footing.confines_check.bind fun _ => ?_
    refine (confines_load (h input List.mem_cons_self)).bind fun loaded => ?_
    exact ih (fun input' hinput => h input' (List.mem_cons_of_mem _ hinput)) _

theorem confines_joinShard {inputs : List ShardInput}
    (h : ∀ input ∈ inputs, input.path.Seen (dir.Sees own)) :
    (dir.footing own).Confines (joinShard inputs) := by
  unfold joinShard
  split
  · trivial
  · rename_i first rest
    split
    · trivial
    · refine (confines_load (h first List.mem_cons_self)).bind fun loaded => ?_
      exact confines_joinParts (fun input hinput => h input (List.mem_cons_of_mem _ hinput)) _ _

theorem confines_writePart (shard : Nat) (table : Table) :
    (dir.footing (ownsShard dir shard)).Confines
      (writePart shard table (partPath (.scratch dir) shard)) := by
  have hholds := Scratch.holds_partPath dir shard
  have hwrite : ∀ content, (dir.footing (ownsShard dir shard)).Confines (Task.attempt fun files =>
      (files.writeFile (partPath (.scratch dir) shard) content).mapError
        fun fault => Fault.csv (.io fault)) := by
    intro content
    refine confines_change (fun t t' ht => ?_) fun t u htu => htu.writeFile hholds.seen content
    exact agreeOn_writeFile ht fun l hl hnot => hnot (hholds.leads hl)
  refine (hwrite []).bind fun _ => ?_
  refine (Footing.confines_done _).bind fun text => ?_
  exact (hwrite text).bind fun _ => trivial

variable {datasets : List Dataset} {sets : List ShardSet} {shard : Nat}

theorem ShardSet.Fits.sees {set : ShardSet} (h : set.Fits dir shard)
    (hdir : ¬ dir.location.Spelled) : (set.file shard).Seen (dir.Sees (ownsShard dir shard)) := by
  rcases h with ⟨-, path, hp⟩ | ⟨i, hp⟩
  · rw [hp]
    exact Scratch.sees_spelled hdir path
  · rw [hp]
    exact (Scratch.holds_shardPath_shard dir i shard).seen

theorem confines_releaseShard (hdir : ¬ dir.location.Spelled)
    (hsets : ∀ set ∈ sets, set.Fits dir shard) : dir.Confines (ownsShard dir shard)
      (Task.act fun s => s.withFiles (releaseShard sets shard s.files)) := by
  refine Footing.confines_act (fun s => ?_) fun s u hsu => ⟨?_, ?_⟩
  · exact (releaseShard_keeps hsets s.files).mono fun l hl i hi => hl (.inl ⟨i, hi⟩)
  · rw [hsu.1]
    rfl
  · exact agreeOn_releaseShard hsu.2 fun set hset => (hsets set hset).sees hdir

theorem confines_noteWait (waited : Duration) : dir.Confines own (noteWait waited) := by
  unfold noteWait
  split
  · trivial
  · exact Footing.Confines.bind (confines_aside fun _ _ => rfl) fun _ =>
      confines_aside fun _ _ => rfl

theorem confines_joinAdmitted (hdir : ¬ dir.location.Spelled)
    (hsets : ∀ set ∈ sets, set.Fits dir shard) (waited : Duration) :
    dir.Confines (ownsShard dir shard)
      (joinAdmitted datasets sets (.scratch dir) waited shard) := by
  have hseen : ∀ input ∈ shardInputs datasets sets shard,
      input.path.Seen (dir.Sees (ownsShard dir shard)) := by
    intro input hinput
    obtain ⟨p, hp, rfl⟩ := List.mem_map.1 hinput
    exact (hsets p.2 (List.of_mem_zip hp).2).sees hdir
  rw [joinAdmitted_eq]
  refine Footing.Confines.bind (confines_noteWait waited) fun _ => ?_
  refine Footing.confines_check.bind fun _ => ?_
  refine Footing.Confines.bind (confines_aside fun _ _ => rfl) fun _ => ?_
  refine Footing.Confines.bind (confines_aside fun _ _ => rfl) fun _ => ?_
  refine Footing.Confines.bind (confines_onFiles (confines_joinShard hseen)).caught fun joined => ?_
  refine Footing.Confines.bind (confines_releaseShard hdir hsets) fun _ => ?_
  refine Footing.Confines.bind (Footing.Confines.caught ?_) fun part => ?_
  · exact (Footing.confines_done _).bind fun table => confines_onFiles (confines_writePart _ table)
  refine Footing.Confines.bind (confines_aside fun _ _ => rfl) fun _ => ?_
  refine (Footing.confines_done _).bind fun _ => ?_
  exact Footing.Confines.bind (confines_aside fun _ _ => rfl) fun _ => trivial

theorem confines_joinTask (hdir : ¬ dir.location.Spelled)
    (hsets : ∀ set ∈ sets, set.Fits dir shard) (waits : Nat → Duration) :
    dir.Confines (ownsShard dir shard) (joinTask datasets sets (.scratch dir) waits shard) := by
  refine Footing.confines_check.bind fun _ => ?_
  refine Footing.Confines.bind confines_admit fun _ => ?_
  refine Footing.Confines.bind (confines_joinAdmitted hdir hsets _).caught fun part => ?_
  exact Footing.Confines.bind (confines_aside fun _ _ => rfl) fun _ => trivial

end Equijoin
