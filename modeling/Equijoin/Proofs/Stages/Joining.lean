import Equijoin.Proofs.Stages.Splitting
import Equijoin.Proofs.Tables.Matching

/-! # Shards are joined

* `JoinsTo`: the parts of a shard, loaded and joined.
* `joinShard_ensures`: joining a shard is loading all of its parts and joining the tables.
* `joinTask_ensures`: if the task of a shard succeeds, its part file holds the joined table; and it
  does, if the parts can be joined and the part file can be written.
* `balanced_joinTask`: the task of a shard waits only for its permit, and gives it back.
* `alone_joinTask`, `paired_joining`: how long shards wait makes no difference to what they come to.
-/

set_option autoImplicit false

namespace Equijoin

open FileTree

variable {owns : Nat → Location → Prop} {i : Nat} {t : FileTree} {dir : Scratch} {shard : Nat}

/-! ## Loading and joining -/

/-- All parts of a shard can be loaded, and their join is the table. -/
def JoinsTo (files : FileTree) (inputs : List ShardInput) (table : Table) : Prop :=
  ∃ tables, List.Forall₂ (fun (input : ShardInput) t =>
      Table.load files input.path input.delimiter input.schema = .ok t) inputs tables ∧
    joinTables tables (inputs.map ShardInput.key) = .ok table

theorem load_ensures {input : ShardInput} (hseen : input.path.Seen (Unowned owns i)) :
    (Region owns i).Ensures input.load t fun r u => u = t ∧ ∀ table places, r = .ok (table, places) ↔
      Table.load t input.path input.delimiter input.schema = .ok table ∧
        table.positions input.key = .ok places := by
  unfold ShardInput.load
  refine ensures_read (fun u hu => by rw [hu.load hseen]) ?_
  refine Footing.ensures_done_bind (load_ne_cancelled _ _ _ _) (fun table htable => ?_)
    fun fault hfault => ⟨rfl, fun _ _ => ?_⟩
  · refine Footing.ensures_done_bind (mapError_ne_error (by simp) _) (fun places hplaces => ?_)
      fun fault hfault => ⟨rfl, fun table' places => ?_⟩
    · refine Footing.ensures_ok ⟨rfl, fun table' places' => ?_⟩
      rw [htable, Except.ok.injEq, Except.ok.injEq, Prod.mk.injEq]
      constructor
      · rintro ⟨rfl, rfl⟩
        exact ⟨rfl, hplaces⟩
      · rintro ⟨rfl, h⟩
        exact ⟨rfl, Except.ok.inj (hplaces.symm.trans h)⟩
    · refine ⟨fun h => (nomatch h), ?_⟩
      rintro ⟨h, hplaces⟩
      cases htable.symm.trans h
      cases hfault.symm.trans hplaces
  · refine ⟨fun h => (nomatch h), ?_⟩
    rintro ⟨h, -⟩
    cases hfault.symm.trans h

theorem joinParts_ensures {inputs : List ShardInput}
    (hseen : ∀ input ∈ inputs, input.path.Seen (Unowned owns i)) (leftKey : List Nat)
    (left : Table) :
    (Region owns i).Ensures (joinParts leftKey left inputs) t fun r u =>
      u = t ∧ ∀ table, r = .ok table ↔
        ∃ tables, List.Forall₂ (fun (input : ShardInput) t' =>
            Table.load t input.path input.delimiter input.schema = .ok t') inputs tables ∧
          left.joinAll leftKey (tables.zip (inputs.map ShardInput.key)) = .ok table := by
  induction inputs generalizing left with
  | nil =>
    rw [joinParts]
    refine Footing.ensures_ok ⟨rfl, fun table => ?_⟩
    simp only [List.forall₂_nil_left_iff, exists_eq_left, List.zip_nil_left, Table.joinAll]
  | cons input rest ih =>
    rw [joinParts]
    refine Footing.ensures_check_bind ?_
    refine Footing.Ensures.bind ((load_ensures (hseen input (by simp))).mono fun r u h => ?_)
    obtain ⟨rfl, hload⟩ := h
    have hstep : ∀ table tables, left.joinAll leftKey
        ((table :: tables).zip ((input :: rest).map ShardInput.key)) =
          table.positions input.key >>= fun rightKey =>
            (left.join table leftKey rightKey).joinAll leftKey
              (tables.zip (rest.map ShardInput.key)) := fun _ _ => rfl
    cases r with
    | error fault =>
      refine ⟨rfl, fun table => ⟨fun h => (nomatch h), ?_⟩⟩
      rintro ⟨tables, hall, hjoin⟩
      obtain ⟨table₁, rest₁, htable₁, -, rfl⟩ := List.forall₂_cons_left_iff.1 hall
      obtain ⟨places, hplaces, -⟩ := bind_eq_ok.1 ((hstep _ _).symm.trans hjoin)
      cases (hload table₁ places).2 ⟨htable₁, hplaces⟩
    | ok loaded =>
      obtain ⟨right, rightKey⟩ := loaded
      obtain ⟨hright, hkey⟩ := (hload right rightKey).1 rfl
      refine (ih (fun input' h => hseen input' (by simp [h])) _).mono fun r u h => ⟨h.1, ?_⟩
      refine fun table => (h.2 table).trans ⟨?_, ?_⟩
      · rintro ⟨tables, hall, hjoin⟩
        exact ⟨right :: tables, .cons hright hall, by rw [hstep, hkey, ok_bind, hjoin]⟩
      · rintro ⟨tables, hall, hjoin⟩
        obtain ⟨table₁, rest₁, htable₁, hrest₁, rfl⟩ := List.forall₂_cons_left_iff.1 hall
        cases hright.symm.trans htable₁
        rw [hstep, hkey, ok_bind] at hjoin
        exact ⟨rest₁, hrest₁, hjoin⟩

theorem joinTables_cons {table₀ : Table} {tables : List Table} {key₀ : List String}
    {keys : List (List String)} (hlength : tables.length = keys.length)
    (hkeys : unequalKeys? (key₀ :: keys) = none) :
    joinTables (table₀ :: tables) (key₀ :: keys) =
      table₀.positions key₀ >>= fun leftKey => table₀.joinAll leftKey (tables.zip keys) := by
  unfold joinTables
  rw [hkeys]
  simp [hlength]

theorem JoinsTo.unique {inputs : List ShardInput} {table table' : Table}
    (h : JoinsTo t inputs table) (h' : JoinsTo t inputs table') : table = table' := by
  obtain ⟨tables, hall, hjoin⟩ := h
  obtain ⟨tables', hall', hjoin'⟩ := h'
  have hsame : tables = tables' := by
    clear hjoin hjoin'
    induction hall generalizing tables' with
    | nil => exact (List.forall₂_nil_left_iff.1 hall').symm
    | cons hload _ ih =>
      obtain ⟨_, _, hload', hrest', rfl⟩ := List.forall₂_cons_left_iff.1 hall'
      rw [ih _ hrest', Except.ok.inj (hload.symm.trans hload')]
  subst hsame
  exact Except.ok.inj (hjoin.symm.trans hjoin')

theorem JoinsTo.read {inputs : List ShardInput} {table : Table} (h : JoinsTo t inputs table)
    {input : ShardInput} (hinput : input ∈ inputs) : ∃ text, t.read input.path = .ok text := by
  obtain ⟨tables, hall, -⟩ := h
  obtain ⟨loaded, -, hload⟩ := exists_right_of_forall₂ hall hinput
  obtain ⟨sheet, hsheet, -⟩ := Table.load_eq_ok.1 hload
  obtain ⟨text, htext, -⟩ := readSheet_eq_ok.1 hsheet
  exact ⟨text, htext⟩

theorem JoinsTo.mem_columns {inputs : List ShardInput} {table : Table} {name : String}
    (h : JoinsTo t inputs table) :
    name ∈ table.columns ↔ ∃ input ∈ inputs, name ∈ input.schema.names := by
  obtain ⟨tables, hall, hjoin⟩ := h
  rw [mem_columns_joinTables hjoin]
  clear hjoin
  induction hall with
  | nil => simp
  | cons hload _ ih => simp only [List.mem_cons, exists_eq_or_imp, Schema.names_of_load hload, ih]

/-- Joining a shard is loading all of its parts and joining the tables. -/
theorem joinShard_ensures {inputs : List ShardInput}
    (hseen : ∀ input ∈ inputs, input.path.Seen (Unowned owns i)) :
    (Region owns i).Ensures (joinShard inputs) t fun r u =>
      u = t ∧ ∀ table, r = .ok table ↔ JoinsTo t inputs table := by
  cases inputs with
  | nil =>
    refine Footing.ensures_done (by simp) ⟨rfl, fun table => ⟨fun h => (nomatch h), ?_⟩⟩
    rintro ⟨tables, hall, hjoin⟩
    rw [List.forall₂_nil_left_iff] at hall
    subst hall
    cases hjoin
  | cons first rest =>
    simp only [joinShard]
    cases hkeys : unequalKeys? ((first :: rest).map ShardInput.key) with
    | some fault =>
      obtain ⟨i, expected, actual, rfl⟩ := unequalKeys?_eq_some hkeys
      refine Footing.ensures_done (by simp) ⟨rfl, fun table => ⟨fun h => (nomatch h), ?_⟩⟩
      rintro ⟨tables, -, hjoin⟩
      rw [(joinTables_eq_ok.1 hjoin).2.1] at hkeys
      cases hkeys
    | none =>
      have hstep : ∀ table₀ tables, List.Forall₂ (fun (input : ShardInput) t' =>
          Table.load t input.path input.delimiter input.schema = .ok t') rest tables →
            joinTables (table₀ :: tables) ((first :: rest).map ShardInput.key) =
              table₀.positions first.key >>= fun leftKey =>
                table₀.joinAll leftKey (tables.zip (rest.map ShardInput.key)) := by
        intro table₀ tables hall
        exact joinTables_cons (by rw [List.length_map, hall.length_eq]) hkeys
      refine Footing.Ensures.bind ((load_ensures (hseen first (by simp))).mono fun r u h => ?_)
      obtain ⟨rfl, hload⟩ := h
      cases r with
      | error fault =>
        refine ⟨rfl, fun table => ⟨fun h => (nomatch h), ?_⟩⟩
        rintro ⟨tables, hall, hjoin⟩
        obtain ⟨table₀, rest₀, htable₀, hrest₀, rfl⟩ := List.forall₂_cons_left_iff.1 hall
        rw [hstep _ _ hrest₀] at hjoin
        obtain ⟨places, hplaces, -⟩ := bind_eq_ok.1 hjoin
        cases (hload table₀ places).2 ⟨htable₀, hplaces⟩
      | ok loaded =>
        obtain ⟨left, leftKey⟩ := loaded
        obtain ⟨hleft, hkey⟩ := (hload left leftKey).1 rfl
        refine (joinParts_ensures (fun input h => hseen input (by simp [h])) leftKey left).mono
          fun r u h => ⟨h.1, fun table => (h.2 table).trans ⟨?_, ?_⟩⟩
        · rintro ⟨tables, hall, hjoin⟩
          refine ⟨left :: tables, .cons hleft hall, ?_⟩
          rw [hstep _ _ hall, hkey, ok_bind, hjoin]
        · rintro ⟨tables, hall, hjoin⟩
          obtain ⟨table₀, rest₀, htable₀, hrest₀, rfl⟩ := List.forall₂_cons_left_iff.1 hall
          cases hleft.symm.trans htable₀
          rw [hstep _ _ hrest₀, hkey, ok_bind] at hjoin
          exact ⟨rest₀, hrest₀, hjoin⟩

theorem untied_joinShard {free : FileTree → Nat} (inputs : List ShardInput) :
    (joinShard inputs).Untied free := by
  have hload : ∀ input : ShardInput, input.load.Untied free := fun input =>
    Task.untied_read.bind fun files => (Task.untied_done _).bind fun table =>
      (Task.untied_done _).bind fun places => Task.untied_done _
  have hparts : ∀ (inputs : List ShardInput) (leftKey : List Nat) (left : Table),
      (joinParts leftKey left inputs).Untied free := by
    intro inputs
    induction inputs with
    | nil => exact fun _ _ => Task.untied_done _
    | cons input rest ih =>
      exact fun leftKey left => Task.untied_check.bind fun _ => (hload input).bind fun _ => ih _ _
  unfold joinShard
  split
  · exact Task.untied_done _
  · split
    · exact Task.untied_done _
    · exact (hload _).bind fun _ => hparts _ _ _

/-! ## Parts -/

/-- The shard files of all datasets, and the part file. -/
def ownsShard (dir : Scratch) (shard : Nat) (l : Location) : Prop :=
  (∃ i, l = shardPlace dir i shard) ∨ l = partPlace dir shard

theorem ownsShard_unique {shard' : Nat} {l : Location} (h : ownsShard dir shard l)
    (h' : ownsShard dir shard' l) : shard = shard' := by
  rcases h with ⟨a, rfl⟩ | rfl
  · rcases h' with ⟨b, hb⟩ | hb
    · exact (shardPlace_inj hb).2
    · exact absurd hb shardPlace_ne_partPlace
  · rcases h' with ⟨b, hb⟩ | hb
    · exact absurd hb.symm shardPlace_ne_partPlace
    · exact partPlace_inj hb

theorem ownsShard_not_spelled (hdir : ¬ dir.location.Spelled) (j : Nat) (l : Location)
    (h : ownsShard dir j l) : ¬ l.Spelled := by
  rcases h with ⟨i, rfl⟩ | rfl
  · exact not_spelled_append hdir _
  · exact not_spelled_append hdir _

theorem unowned_location (shard : Nat) : Unowned (ownsShard dir) shard dir.location := by
  intro j _ hj
  rcases hj with ⟨i, hi⟩ | hi
  · exact location_ne_append _ _ hi
  · exact location_ne_append _ _ hi

theorem shardPath_seen_shard (i : Nat) :
    (shardPath (.scratch dir) i shard).Seen (Unowned (ownsShard dir) shard) := by
  refine ⟨unowned_location shard, fun j hj h => ?_⟩
  exact hj (ownsShard_unique h (.inl ⟨i, rfl⟩))

theorem partPath_seen : (partPath (.scratch dir) shard).Seen (Unowned (ownsShard dir) shard) := by
  refine ⟨unowned_location shard, fun j hj h => ?_⟩
  exact hj (ownsShard_unique h (.inr rfl))

/-- The set has one file for the shard: that of the dataset, or one that the run has made. -/
def ShardSet.Fits (dir : Scratch) (shard : Nat) (set : ShardSet) : Prop :=
  (set.rows = none ∧ ∃ path, set.file shard = .spelled path) ∨
    ∃ i, set.file shard = shardPath (.scratch dir) i shard

theorem ShardSet.Fits.seen (hdir : ¬ dir.location.Spelled) {set : ShardSet}
    (h : set.Fits dir shard) : (set.file shard).Seen (Unowned (ownsShard dir) shard) := by
  rcases h with ⟨-, path, hp⟩ | ⟨i, hp⟩
  · rw [hp]
    exact fun l hl j _ hj => ownsShard_not_spelled hdir j l hj hl
  · rw [hp]
    exact shardPath_seen_shard i

theorem releaseShard_keeps {sets : List ShardSet} (hsets : ∀ set ∈ sets, set.Fits dir shard)
    (t : FileTree) :
    AgreeOn (fun l => ∀ i, l ≠ shardPlace dir i shard) t (releaseShard sets shard t) := by
  unfold releaseShard
  induction sets generalizing t with
  | nil => exact AgreeOn.refl _ t
  | cons set rest ih =>
    have hrest := ih fun set' h => hsets set' (by simp [h])
    rw [List.filter_cons]
    split
    · rename_i hrows
      refine AgreeOn.trans (agreeOn_discard t fun l hl hnot => ?_) (hrest _)
      rcases hsets set (by simp) with ⟨hnone, -⟩ | ⟨i, hp⟩
      · rw [hnone] at hrows
        cases hrows
      · rw [hp] at hl
        exact hnot i (leads_shardPath hl)
    · exact hrest t

theorem agreeOn_releaseShard {P : Location → Prop} {u : FileTree} {sets : List ShardSet}
    (h : AgreeOn P t u) (hsets : ∀ set ∈ sets, (set.file shard).Seen P) :
    AgreeOn P (releaseShard sets shard t) (releaseShard sets shard u) := by
  unfold releaseShard
  induction sets generalizing t u with
  | nil => exact h
  | cons set rest ih =>
    have hrest := fun {t u : FileTree} (h : AgreeOn P t u) =>
      ih h fun set' hset' => hsets set' (by simp [hset'])
    rw [List.filter_cons]
    split
    · exact hrest (h.discard (hsets set (by simp)))
    · exact hrest h

/-- The text of a table without its header. -/
def Table.Text (table : Table) (text : Bytes) : Prop :=
  Csv.writeLines Delimiter.comma table.cells = .ok text

theorem Table.Rectangular.text {table : Table} (h : table.Rectangular) :
    ∃ text, table.Text text := by
  have hwidth : ∀ cells ∈ table.cells, cells.length = table.columns.length := by
    intro cells hcells
    obtain ⟨row, hrow, rfl⟩ := List.mem_map.1 hcells
    rw [List.length_map]
    exact h.2 row hrow
  unfold Table.Text Csv.writeLines
  split
  · exact ⟨[], rfl⟩
  · rename_i first rest hcells
    rw [hcells] at hwidth
    split
    · rename_i r hr
      have hmem : r ∈ first :: rest := by
        rw [← hcells]
        exact List.mem_of_find?_eq_some hr
      have hne := List.find?_some hr
      rw [hwidth r hmem, hwidth first (by simp)] at hne
      simp at hne
    · exact ⟨_, rfl⟩

theorem writePart_ensures (table : Table) :
    (Region (ownsShard dir) shard).Ensures
      (writePart shard table (partPath (.scratch dir) shard)) t fun r u =>
        (∀ part, r = .ok part →
          part = ⟨shard, table.columns, table.rows.length, partPath (.scratch dir) shard⟩ ∧
            ∃ text, table.Text text ∧ u.read (partPath (.scratch dir) shard) = .ok text) ∧
        ((∃ text, table.Text text) → t.Takes (partPath (.scratch dir) shard) →
          ∃ part, r = .ok part) := by
  have hwrite : ∀ (t : FileTree) (content : Bytes) (post : Outcome Unit → FileTree → Prop),
      (∀ t', t.writeFile (partPath (.scratch dir) shard) content = .ok t' → post (.ok ()) t') →
      (∀ fault, ¬ t.Takes (partPath (.scratch dir) shard) → post (.error fault) t) →
      (Region (ownsShard dir) shard).Ensures (Task.attempt fun files =>
        (files.writeFile (partPath (.scratch dir) shard) content).mapError
          fun fault => Fault.csv (.io fault)) t post := by
    intro t content post hok herror
    refine ensures_write (fun u u' h => ?_) (fun u hu => ?_) (mapError_ne_error (by simp) _)
      (fun t' h => ?_) fun fault h => ?_
    · exact agreeOn_writeFile (mapError_eq_ok.1 h) fun l hl hnot => hnot (.inr hl)
    · exact (hu.writeFile partPath_seen _).mapError _
    · exact hok t' (mapError_eq_ok.1 h)
    · refine herror fault fun htakes => ?_
      obtain ⟨l, hl, hdir⟩ := htakes
      rw [writeFile_eq_ok.2 ⟨l, hl, hdir, rfl⟩] at h
      cases h
  unfold writePart
  refine Footing.Ensures.bind (hwrite _ _ _ (fun t₁ ht₁ => ?_) fun fault hnot => ?_)
  swap
  · exact ⟨fun _ h => (nomatch h), fun _ h => absurd h hnot⟩
  refine Footing.ensures_done_bind (mapError_ne_error (by simp) _) (fun text htext => ?_)
    fun fault hfault => ?_
  swap
  · refine ⟨fun _ h => (nomatch h), ?_⟩
    rintro ⟨text, htext⟩
    rw [show Csv.writeLines Delimiter.comma table.cells = .ok text from htext] at hfault
    cases hfault
  refine Footing.Ensures.bind (hwrite _ _ _ (fun t₂ ht₂ => ?_) fun fault hnot => ?_)
  · refine Footing.ensures_ok ⟨fun part hpart => ?_, fun _ _ => ⟨_, rfl⟩⟩
    cases hpart
    exact ⟨rfl, text, mapError_eq_ok.1 htext, read_writeFile ht₂⟩
  · obtain ⟨l, -, hdir, rfl⟩ := writeFile_eq_ok.1 ht₁
    exact ⟨fun _ h => (nomatch h), fun _ h => absurd (h.put [] hdir) hnot⟩

theorem untied_writePart {n : Nat} (table : Table) (path : FilePath) :
    (writePart shard table path).Untied fun _ => n :=
  (Task.untied_attempt fun _ _ _ => rfl).bind fun _ => (Task.untied_done _).bind fun _ =>
    (Task.untied_attempt fun _ _ _ => rfl).bind fun _ => Task.untied_done _

/-! ## Tasks -/

variable {datasets : List Dataset} {sets : List ShardSet}

/-- What the task of a shard leaves behind. -/
def PartOf (files after : FileTree) (inputs : List ShardInput) (dir : Scratch) (shard : Nat)
    (part : Part) : Prop :=
  ∃ table text, JoinsTo files inputs table ∧ table.Text text ∧
    part = ⟨shard, table.columns, table.rows.length, partPath (.scratch dir) shard⟩ ∧
    after.read (partPath (.scratch dir) shard) = .ok text

/-- All that it takes to join a shard. -/
def Joinable (files : FileTree) (inputs : List ShardInput) (dir : Scratch) (shard : Nat) : Prop :=
  (∃ table text, JoinsTo files inputs table ∧ table.Text text) ∧
    files.Takes (partPath (.scratch dir) shard)

/-- What joining a shard comes to. -/
def JoinedAs (files : FileTree) (inputs : List ShardInput) (dir : Scratch) (shard : Nat)
    (r : Outcome Part) (after : FileTree) : Prop :=
  (∀ part, r = .ok part → PartOf files after inputs dir shard part) ∧
    (Joinable files inputs dir shard → ∃ part, r = .ok part)

theorem shardInputs_seen (hdir : ¬ dir.location.Spelled) (hsets : ∀ set ∈ sets, set.Fits dir shard)
    (input : ShardInput) (h : input ∈ shardInputs datasets sets shard) :
    input.path.Seen (Unowned (ownsShard dir) shard) := by
  obtain ⟨p, hp, rfl⟩ := List.mem_map.1 h
  exact (hsets p.2 (List.of_mem_zip hp).2).seen hdir

theorem ensures_release (hdir : ¬ dir.location.Spelled) (hsets : ∀ set ∈ sets, set.Fits dir shard)
    {s : Session} {post : Outcome Unit → Session → Prop}
    (h : post (.ok ()) (s.withFiles (releaseShard sets shard s.files))) :
    (Region (ownsShard dir) shard).onFiles.Ensures
      (Task.act fun s => s.withFiles (releaseShard sets shard s.files)) s post := by
  refine Footing.ensures_act (fun a => ?_) (fun a ha => ?_) h
  · exact (releaseShard_keeps hsets a.files).mono fun l hl i hi => hl (.inl ⟨i, hi⟩)
  · exact agreeOn_releaseShard ha fun set hset => (hsets set hset).seen hdir

theorem takes_releaseShard (hsets : ∀ set ∈ sets, set.Fits dir shard)
    (h : t.Takes (partPath (.scratch dir) shard)) :
    (releaseShard sets shard t).Takes (partPath (.scratch dir) shard) := by
  have hkeep := releaseShard_keeps hsets t
  exact hkeep.takes ⟨fun i => location_ne_append _ _, fun i => shardPlace_ne_partPlace.symm⟩ h

/-- The part of a shard is counted and reported. -/
def reportPart (shard : Nat) (part : Outcome Part) : Task Session Part := do
  let rows := match part with
    | .ok part => part.rows
    | .error _ => 0
  Task.count (·.endShard (UInt64.ofNat rows))
  let part ← Task.ofOutcome part
  Task.emit (.shardFinished shard rows)
  Task.succeed part

theorem joinAdmitted_eq (folder : Folder) (waited : Duration) :
    joinAdmitted datasets sets folder waited shard = (do
    noteWait waited
    Task.check
    Task.count Metrics.startShard
    Task.emit (.shardStarted shard)
    let joined ← (joinShard (shardInputs datasets sets shard)).onFiles.caught
    Task.act fun s => s.withFiles (releaseShard sets shard s.files)
    let part ← (do
      let table ← Task.ofOutcome joined
      (writePart shard table (partPath folder shard)).onFiles).caught
    reportPart shard part) := rfl

theorem reportPart_ensures {owns : Nat → Location → Prop} {part : Outcome Part} {s : Session}
    (hpart : part ≠ .error .cancelled) {post : Outcome Part → FileTree → Prop}
    (h : post part s.files) : (Region owns shard).onFiles.Ensures (reportPart shard part) s
      fun r v => post r v.files := by
  unfold reportPart
  refine Footing.Ensures.bind (ensures_aside (fun _ => rfl) ?_)
  refine Footing.ensures_done_bind hpart (fun p hp => ?_) fun fault hfault => ?_
  · refine Footing.Ensures.bind (ensures_aside (fun _ => rfl) (Footing.ensures_ok ?_))
    rw [hp] at h
    exact h
  · rw [hfault] at h
    exact h

theorem reportPart_cancelled {owns : Nat → Location → Prop} :
    (Region owns shard).onFiles.Always (reportPart shard (.error .cancelled))
      (· = .error .cancelled) := by
  unfold reportPart
  refine (Footing.always_act fun a => AgreeOn.refl _ a.files).bind (fun _ _ => rfl) fun _ h => ?_
  cases h

/-- Noting a wait changes counters and reports only. -/
theorem ensures_noteWait {owns : Nat → Location → Prop} {s : Session}
    {post : Outcome Unit → Session → Prop} (waited : Duration)
    (h : ∀ v : Session, v.files = s.files → post (.ok ()) v) :
    (Region owns shard).onFiles.Ensures (noteWait waited) s post := by
  unfold noteWait
  split
  · exact Footing.ensures_ok (h s rfl)
  · refine Footing.Ensures.bind (ensures_aside (fun _ => rfl) ?_)
    exact ensures_aside (fun _ => rfl) (h _ rfl)

theorem joinAdmitted_ensures (hdir : ¬ dir.location.Spelled)
    (hsets : ∀ set ∈ sets, set.Fits dir shard) (waited : Duration) (s : Session) :
    (Region (ownsShard dir) shard).onFiles.Ensures
      (joinAdmitted datasets sets (.scratch dir) waited shard) s fun r v =>
        JoinedAs s.files (shardInputs datasets sets shard) dir shard r v.files := by
  have hmove : ∀ a : Session, (Region (ownsShard dir) shard).onFiles.moves a
      (a.withFiles (releaseShard sets shard a.files)) := fun a =>
    (releaseShard_keeps hsets a.files).mono fun l hl i hi => hl (.inl ⟨i, hi⟩)
  rw [joinAdmitted_eq]
  refine Footing.Ensures.bind (ensures_noteWait waited fun u hu => ?_)
  rw [← hu]
  refine Footing.ensures_check_bind (Footing.Ensures.bind (ensures_aside (fun _ => rfl) ?_))
  refine Footing.Ensures.bind (ensures_aside (fun _ => rfl) ?_)
  -- a cancellation while the tables are loaded is passed on after the files are gone
  refine Footing.Ensures.caught_bind ?_ (ensures_onFiles
    ((joinShard_ensures (shardInputs_seen hdir hsets)).and_uncancelled.mono fun joined files h => ?_))
  · refine (Footing.always_act hmove).bind (fun _ _ => reportPart_cancelled) fun _ h => ?_
    cases h
  obtain ⟨hne, rfl, hjoined⟩ := h
  refine Footing.Ensures.bind (ensures_release hdir hsets ?_)
  refine Footing.Ensures.caught_bind reportPart_cancelled ?_
  refine Footing.ensures_done_bind hne (fun table htable => ?_) fun fault hfault => ?_
  · refine ensures_onFiles ((writePart_ensures table).and_uncancelled.mono fun part files h => ?_)
    refine reportPart_ensures h.1 ⟨fun p hp => ?_, fun hall => ?_⟩
    · obtain ⟨hp, text, htext, hread⟩ := h.2.1 p hp
      exact ⟨table, text, (hjoined table).1 htable, htext, hp, hread⟩
    · obtain ⟨⟨table', text, hjoin, htext⟩, htakes⟩ := hall
      have htable' := (hjoined table').2 hjoin
      rw [htable] at htable'
      cases htable'
      exact h.2.2 ⟨text, htext⟩ (takes_releaseShard hsets htakes)
  · have hpart : (.error fault : Outcome Part) ≠ .error .cancelled := by
      intro h
      rw [hfault, Except.error.inj h] at hne
      exact hne rfl
    refine reportPart_ensures hpart ⟨fun p hp => (by cases hp), fun hall => ?_⟩
    obtain ⟨⟨table, text, hjoin, -⟩, -⟩ := hall
    have htable := (hjoined table).2 hjoin
    rw [hfault] at htable
    cases htable

theorem admit?_eq_some {s s' : Session} :
    s.admit? = some s' ↔ ∃ n, s.permits = n + 1 ∧ s' = { s with permits := n } := by
  unfold Session.admit?
  cases s.permits with
  | zero => simp
  | succ n =>
    constructor
    · intro h
      exact ⟨n, rfl, (Option.some.inj h).symm⟩
    · rintro ⟨m, hm, rfl⟩
      obtain rfl := Nat.succ.inj hm
      rfl

theorem admit?_files {s s' : Session} (h : s.admit? = some s') : s'.files = s.files := by
  obtain ⟨n, -, rfl⟩ := admit?_eq_some.1 h
  rfl

/-- What the task of a shard comes to in a session that has a permit. -/
theorem joinTask_ensures (hdir : ¬ dir.location.Spelled)
    (hsets : ∀ set ∈ sets, set.Fits dir shard) (waits : Nat → Duration) {s : Session}
    (hpermit : 0 < s.permits) :
    (Region (ownsShard dir) shard).onFiles.Ensures
      (joinTask datasets sets (.scratch dir) waits shard) s fun r v =>
        JoinedAs s.files (shardInputs datasets sets shard) dir shard r v.files := by
  have hcancelled : (Region (ownsShard dir) shard).onFiles.Always
      ((Task.act Session.release).bind fun _ => Task.ofOutcome (.error .cancelled : Outcome Part))
      (· = .error .cancelled) :=
    (Footing.always_act fun a => AgreeOn.refl _ a.files).bind (fun _ _ => rfl)
      fun _ h => (nomatch h)
  obtain ⟨n, hn⟩ : ∃ n, s.permits = n + 1 := ⟨s.permits - 1, by omega⟩
  have hs : s.admit? = some { s with permits := n } := admit?_eq_some.2 ⟨n, hn, rfl⟩
  unfold joinTask
  refine Footing.ensures_check_bind ?_
  refine Footing.Ensures.bind (Footing.ensures_await hs (fun a a' h => ?_) (fun a a' ha h => ?_) ?_)
  · show AgreeOn _ a.files a'.files
    rw [admit?_files h]
    exact AgreeOn.refl _ _
  · show AgreeOn _ s.files a'.files
    rw [admit?_files h]
    exact ha
  refine Footing.Ensures.caught_bind hcancelled
    ((joinAdmitted_ensures hdir hsets _ _).and_uncancelled.mono fun part v h => ?_)
  refine Footing.Ensures.bind (ensures_aside (fun _ => rfl) ?_)
  exact Footing.ensures_done h.1 h.2

theorem untied_noteWait (waited : Duration) : (noteWait waited).Untied Session.permits := by
  unfold noteWait
  split
  · exact Task.untied_done _
  · exact Task.Untied.bind (untied_count fun _ _ => rfl) fun _ => untied_emit fun _ => rfl

theorem untied_joinAdmitted (folder : Folder) (waited : Duration) :
    (joinAdmitted datasets sets folder waited shard).Untied Session.permits := by
  have hjoin : (joinShard (shardInputs datasets sets shard)).onFiles.Untied Session.permits :=
    untied_onFiles (untied_joinShard _) fun _ _ => rfl
  have hwrite : ∀ table, (writePart shard table (partPath folder shard)).onFiles.Untied
      Session.permits := fun table => untied_onFiles (untied_writePart _ _) fun _ _ => rfl
  have hremove : (Task.act fun s : Session =>
      s.withFiles (releaseShard sets shard s.files)).Untied Session.permits :=
    Task.untied_act fun _ => rfl
  unfold joinAdmitted
  refine (untied_noteWait waited).bind fun _ => ?_
  refine Task.untied_check.bind fun _ => (untied_count fun _ _ => rfl).bind fun _ => ?_
  refine (untied_emit fun _ => rfl).bind fun _ => hjoin.caught.bind fun joined => ?_
  refine hremove.bind fun _ => ?_
  refine ((Task.untied_done _).bind fun table => hwrite table).caught.bind fun part => ?_
  refine (untied_count fun _ _ => rfl).bind fun _ => (Task.untied_done _).bind fun p => ?_
  exact (untied_emit fun _ => rfl).bind fun _ => Task.untied_done _

/-- The task of a shard waits for one permit, and gives it back in any case. -/
theorem balanced_joinTask (folder : Folder) (waits : Nat → Duration) :
    (joinTask datasets sets folder waits shard).Balanced Session.permits 0 := by
  have hrelease : ∀ part : Outcome Part, ((Task.act Session.release).bind
      fun _ => Task.ofOutcome part).Balanced Session.permits 1 := by
    intro part s
    exact .inr ⟨s.release, 0, rfl, rfl, rfl⟩
  intro raised
  cases raised with
  | true => rfl
  | false =>
    intro s
    cases hs : s.permits with
    | zero =>
      refine .inl ⟨?_, rfl, rfl⟩
      simp only [Session.admit?, hs]
    | succ n =>
      refine .inr ⟨{ s with permits := n }, 1, ?_, rfl, ?_⟩
      · simp only [Session.admit?, hs]
      · exact (untied_joinAdmitted folder _).caught_bind hrelease

/-! ## The stage -/

/-- The tasks that join shards. -/
def joiningTasks (datasets : List Dataset) (sets : List ShardSet) (folder : Folder)
    (waits : Nat → Duration) (count : Nat) : List (Task Session Part) :=
  (List.range count).map (joinTask datasets sets folder waits)

variable {waits : Nat → Duration}

theorem getElem?_joiningTasks {folder : Folder} {count : Nat} {task : Task Session Part}
    (h : (joiningTasks datasets sets folder waits count)[shard]? = some task) :
    shard < count ∧ task = joinTask datasets sets folder waits shard := by
  simp only [joiningTasks, List.getElem?_map, Option.map_eq_some_iff] at h
  obtain ⟨n, hn, rfl⟩ := h
  obtain ⟨hlt, rfl⟩ := List.getElem?_eq_some_iff.1 hn
  rw [List.length_range] at hlt
  exact ⟨hlt, by rw [List.getElem_range]⟩

theorem orderly_joining (datasets : List Dataset) (waits : Nat → Duration) {count : Nat}
    (hdir : ¬ dir.location.Spelled)
    (hsets : ∀ shard, shard < count → ∀ set ∈ sets, set.Fits dir shard) {o : Session}
    (hpermit : 0 < o.permits) :
    Orderly (ownsShard dir) Session.permits (joiningTasks datasets sets (.scratch dir) waits count) o
      fun shard r v => JoinedAs o.files (shardInputs datasets sets shard) dir shard r v.files where
  unique _ _ _ := ownsShard_unique
  ensures shard task htask := by
    obtain ⟨hshard, rfl⟩ := getElem?_joiningTasks htask
    exact joinTask_ensures hdir (hsets shard hshard) waits hpermit
  balanced task htask := by
    obtain ⟨shard, -, rfl⟩ := List.mem_map.1 htask
    exact balanced_joinTask _ _

/-- A task that has waited goes on like one that has not, in a session with the same files. -/
theorem alone_joinTask (datasets : List Dataset) (sets : List ShardSet) (folder : Folder)
    (waits : Nat → Duration) (shard : Nat) {o : Session} (hpermit : 0 < o.permits) :
    ∃ u : Session, u.files = o.files ∧ 0 < u.permits ∧
      (joinTask datasets sets folder waits shard).alone false o =
        (joinTask datasets sets folder (fun _ => .zero) shard).alone false u := by
  have hcheck : ∀ s : Session, Task.check.alone false s = some (.ok (), s) := fun _ => rfl
  have hawait : ∀ s s' : Session, s.admit? = some s' →
      (Task.await Session.admit?).alone false s = some (.ok (), s') :=
    fun _ _ h => Task.alone_step false _ h
  by_cases hwait : waits shard = .zero
  · refine ⟨o, rfl, hpermit, ?_⟩
    simp only [joinTask, hwait]
  · obtain ⟨n, hn⟩ : ∃ n, o.permits = n + 1 := ⟨o.permits - 1, by omega⟩
    let u : Session := { o with metrics := o.metrics.addWait (waits shard) }.emit
      (.throttled (waits shard))
    have ho : o.admit? = some { o with permits := n } := admit?_eq_some.2 ⟨n, hn, rfl⟩
    have hu : u.admit? = some { u with permits := n } := admit?_eq_some.2 ⟨n, hn, rfl⟩
    refine ⟨u, rfl, hpermit, ?_⟩
    simp only [joinTask, joinAdmitted_eq, noteWait, if_neg hwait, if_true, Task.bind_eq]
    rw [Task.alone_bind (hcheck o), Task.alone_bind (hcheck u), Task.alone_bind (hawait o _ ho),
      Task.alone_bind (hawait u _ hu)]
    rfl

/-- How long shards wait makes no difference to what they come to. -/
theorem paired_joining (datasets : List Dataset) (waits waits' : Nat → Duration) {count : Nat}
    (hdir : ¬ dir.location.Spelled)
    (hsets : ∀ shard, shard < count → ∀ set ∈ sets, set.Fits dir shard) {o : Session}
    (hpermit : 0 < o.permits) :
    Paired (ownsShard dir) (joiningTasks datasets sets (.scratch dir) waits count)
      (joiningTasks datasets sets (.scratch dir) waits' count) o := by
  refine ⟨by simp [joiningTasks], fun shard t v u ht halone => ?_⟩
  obtain ⟨hshard, rfl⟩ := getElem?_joiningTasks ht
  obtain ⟨a, ha, hfree, heq⟩ :=
    alone_joinTask datasets sets (.scratch dir) waits shard hpermit
  obtain ⟨a', ha', hfree', heq'⟩ :=
    alone_joinTask datasets sets (.scratch dir) waits' shard hpermit
  have hagree : (Region (ownsShard dir) shard).onFiles.agrees a a' :=
    region_agrees (by rw [ha, ha']; exact AgreeOn.refl _ _) shard
  have hensures := @joinTask_ensures dir shard datasets sets hdir (hsets shard hshard)
    (fun _ => .zero)
  obtain ⟨r, b, b', hb, hb', hfiles⟩ := (hensures hfree).alone_eq (hensures hfree') hagree
  cases halone.symm.trans (heq.trans hb)
  exact ⟨_, b', by simp [joiningTasks, hshard], heq'.trans hb', hfiles⟩

theorem sets_fit {count : Nat} {files after : FileTree} (hlength : sets.length = datasets.length)
    (hsets : ∀ (i : Nat) (d : Dataset) (set : ShardSet), datasets[i]? = some d →
      sets[i]? = some set → d.SplitInto files after d.separator dir i count set)
    (shard : Nat) (hshard : shard < count) (set : ShardSet) (h : set ∈ sets) :
    set.Fits dir shard := by
  obtain ⟨i, hi, hset⟩ := List.mem_iff_getElem.1 h
  have hd : i < datasets.length := by omega
  have hsplit := hsets i datasets[i] set (List.getElem?_eq_getElem hd)
    (by rw [List.getElem?_eq_getElem hi, hset])
  rcases hsplit.fits hshard with ⟨hrows, hfile⟩ | hfile
  · exact .inl ⟨hrows, _, hfile⟩
  · exact .inr ⟨i, hfile⟩

theorem PartOf.congr {files after after' : FileTree} {inputs : List ShardInput} {part : Part}
    (h : PartOf files after inputs dir shard part)
    (hafter : AgreeOn (Unowned (ownsShard dir) shard) after after') :
    PartOf files after' inputs dir shard part := by
  obtain ⟨table, text, hjoin, htext, hpart, hread⟩ := h
  exact ⟨table, text, hjoin, htext, hpart, by rw [← hread, hafter.read partPath_seen]⟩

theorem joining_values {count : Nat} (hdir : ¬ dir.location.Spelled)
    (hsets : ∀ shard, shard < count → ∀ set ∈ sets, set.Fits dir shard) {o v : Session}
    (hpermit : 0 < o.permits) {schedule : Schedule} {parts : List Part}
    (h : fanOut schedule (joiningTasks datasets sets (.scratch dir) waits count) o =
      (.ok parts, v)) :
    parts.length = count ∧ ∀ (shard : Nat) (part : Part), parts[shard]? = some part →
      PartOf o.files v.files (shardInputs datasets sets shard) dir shard part := by
  have hstage := (fanOut_orderly (orderly_joining datasets waits hdir hsets hpermit)
    (AgreeOn.refl _ _) hpermit schedule).2
  rw [h] at hstage
  rcases hstage with ⟨values, hok, hlength, hvalues⟩ | ⟨i, task, fault, u, -, herror, -⟩
  · cases hok
    refine ⟨by rw [hlength]; simp [joiningTasks], fun shard part hpart => ?_⟩
    obtain ⟨task, u, -, -, hjoined, hu⟩ := hvalues shard part hpart
    exact (hjoined.1 part rfl).congr hu
  · cases herror

theorem joining_succeeds {count : Nat} (hdir : ¬ dir.location.Spelled)
    (hsets : ∀ shard, shard < count → ∀ set ∈ sets, set.Fits dir shard) {o : Session}
    (hpermit : 0 < o.permits)
    (h : ∀ shard, shard < count → Joinable o.files (shardInputs datasets sets shard) dir shard)
    (waits : Nat → Duration) (schedule : Schedule) : ∃ parts v,
      fanOut schedule (joiningTasks datasets sets (.scratch dir) waits count) o =
        (.ok parts, v) := by
  rcases hx : fanOut schedule (joiningTasks datasets sets (.scratch dir) waits count) o with ⟨r, v⟩
  have hstage := (fanOut_orderly (orderly_joining datasets waits hdir hsets hpermit)
    (AgreeOn.refl _ _) hpermit schedule).2
  rw [hx] at hstage
  rcases hstage with ⟨parts, hok, -⟩ | ⟨shard, task, fault, u, htask, -, -, -, hjoined⟩
  · obtain rfl : r = .ok parts := hok
    exact ⟨parts, v, rfl⟩
  · obtain ⟨part, hpart⟩ := hjoined.2 (h shard (getElem?_joiningTasks htask).1)
    cases hpart

end Equijoin
