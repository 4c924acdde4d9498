import Equijoin.Proofs.Files.ScratchNames
import Equijoin.Proofs.Stages.Coercing

/-! # Datasets are split

* `Dataset.Routes`: the records of the file of a dataset, with their shards.
* `Dataset.SplitInto`: a shard set, and the files that it stands for in a tree.
* `shardTask_ensures`: if the task of a dataset succeeds, the dataset is split; and it does, if all
  keys can be read and all files can be written.
-/

set_option autoImplicit false

namespace Equijoin

open FileTree

variable {t u : FileTree} {dir : Scratch} {i : Nat}

/-! ## What tasks own -/

/-- The shard files of a dataset are its own. -/
def ownsShards (dir : Scratch) (i : Nat) (l : Location) : Prop := ∃ s, l = shardPlace dir i s

theorem ownsShards_unique {j : Nat} {l : Location} (h : ownsShards dir i l)
    (h' : ownsShards dir j l) : i = j := by
  obtain ⟨s, rfl⟩ := h
  obtain ⟨s', hs⟩ := h'
  exact (shardPlace_inj hs).1

theorem not_spelled_append {l : Location} (h : ¬ l.Spelled) (name : Name) :
    ¬ Location.Spelled (l ++ [name]) :=
  fun hl => h fun serial hs => hl serial (by simp [hs])

theorem ownsShards_not_spelled (hdir : ¬ dir.location.Spelled) (j : Nat) (l : Location)
    (h : ownsShards dir j l) : ¬ l.Spelled := by
  obtain ⟨s, rfl⟩ := h
  exact not_spelled_append hdir _

theorem location_ne_append (l : Location) (name : Name) : l ≠ l ++ [name] := by
  intro h
  have := congrArg List.length h
  simp at this

theorem leads_shardPath {s : Nat} {l : Location} (h : (shardPath (.scratch dir) i s).Leads l) :
    l = shardPlace dir i s := h

theorem shardPath_seen (s : Nat) :
    (shardPath (.scratch dir) i s).Seen (Unowned (ownsShards dir) i) := by
  refine ⟨fun j _ hj => ?_, fun j hij hj => ?_⟩
  · obtain ⟨r, hr⟩ := hj
    exact location_ne_append _ _ hr
  · exact hij (ownsShards_unique hj ⟨s, rfl⟩)

/-! ## Records and their shards -/

/-- The record goes to the shard of its key. -/
def Routed.Of (columns : List KeyColumn) (count : Nat) (record : Except Csv.Fault (List String))
    (r : Routed) : Prop :=
  record = .ok r.cells ∧
    ∃ key : Key, List.Forall₂ (KeyColumn.Holds r.cells) columns key ∧ r.shard = key.shard count

theorem routeRecords_ensures {owns : Nat → Location → Prop} (columns : List KeyColumn)
    (count row : Nat) (earlier : List Routed) (records : List (Except Csv.Fault (List String))) :
    (Region owns i).Ensures (routeRecords columns count row earlier records) t fun r u =>
      u = t ∧ ∀ rs, r = .ok rs ↔
        ∃ routed, List.Forall₂ (Routed.Of columns count) records routed ∧
          rs = earlier.reverse ++ routed := by
  induction records generalizing row earlier with
  | nil =>
    rw [routeRecords]
    refine Footing.ensures_ok ⟨rfl, fun rs => ?_⟩
    simp only [List.forall₂_nil_left_iff, exists_eq_left, List.append_nil, Except.ok.injEq]
    exact eq_comm
  | cons record records ih =>
    cases record with
    | error fault =>
      rw [routeRecords]
      refine Footing.ensures_done (by simp) ⟨rfl, fun rs => ?_⟩
      constructor
      · exact fun h => nomatch h
      · rintro ⟨routed, h, -⟩
        obtain ⟨r, -, ⟨hr, -⟩, -⟩ := List.forall₂_cons_left_iff.1 h
        cases hr
    | ok cells =>
      rw [routeRecords]
      refine Footing.ensures_check_bind ?_
      refine Footing.ensures_done_bind (readKey_ne_cancelled _ _ _) (fun key hkey => ?_)
        fun fault hfault => ⟨rfl, fun rs => ?_⟩
      · have hholds := readKey_eq_ok.1 hkey
        refine (ih _ _).mono fun r u h => ⟨h.1, fun rs => (h.2 rs).trans ?_⟩
        constructor
        · rintro ⟨routed, hrest, rfl⟩
          exact ⟨⟨key.shard count, cells⟩ :: routed,
            .cons ⟨rfl, key, hholds, rfl⟩ hrest, by simp⟩
        · rintro ⟨routed, hall, rfl⟩
          obtain ⟨r, rest, ⟨hr, key', hkey', hshard⟩, hrest, rfl⟩ :=
            List.forall₂_cons_left_iff.1 hall
          cases hr
          -- the key of a record does not depend on the number of its row
          have hsame : readKey row columns r.cells = .ok key' := readKey_eq_ok.2 hkey'
          rw [hkey] at hsame
          cases hsame
          refine ⟨rest, hrest, ?_⟩
          rw [← hshard]
          simp
      · constructor
        · exact fun h => nomatch h
        · rintro ⟨routed, hall, -⟩
          obtain ⟨r, rest, ⟨hr, key', hkey', -⟩, -, -⟩ := List.forall₂_cons_left_iff.1 hall
          cases hr
          have hsame : readKey row columns r.cells = .ok key' := readKey_eq_ok.2 hkey'
          rw [hfault] at hsame
          cases hsame

theorem untied_routeRecords {free : FileTree → Nat} (columns : List KeyColumn) (count row : Nat)
    (earlier : List Routed) (records : List (Except Csv.Fault (List String))) :
    (routeRecords (σ := FileTree) columns count row earlier records).Untied free := by
  induction records generalizing row earlier with
  | nil =>
    rw [routeRecords]
    exact trivial
  | cons record records ih =>
    cases record with
    | error fault =>
      rw [routeRecords]
      exact trivial
    | ok cells =>
      rw [routeRecords]
      exact Task.untied_check.bind fun _ => (Task.untied_done _).bind fun key => ih _ _

/-! ## Shard files -/

/-- The records of the file of a dataset have been read and routed by their keys. -/
structure Dataset.Routes (files : FileTree) (d : Dataset) (delimiter : UInt8) (count : Nat)
    (sheet : Csv.Sheet) (types : List ColumnType) (places : List Nat) (routed : List Routed) : Prop
    extends d.Opened files delimiter sheet types places where
  routes : List.Forall₂ (Routed.Of (keyColumns sheet.header types places) count) sheet.records
    routed

theorem Dataset.Routes.congr {files u : FileTree} {d : Dataset} {delimiter : UInt8} {count : Nat}
    {sheet : Csv.Sheet} {types : List ColumnType} {places : List Nat} {routed : List Routed}
    (h : d.Routes files delimiter count sheet types places routed)
    (hu : AgreeOn Location.Spelled files u) :
    d.Routes u delimiter count sheet types places routed :=
  ⟨h.toOpened.congr hu, h.routes⟩

/-- The files of the shards of a dataset. -/
def shardFiles (dir : Scratch) (i count : Nat) (delimiter : UInt8) (rows : Nat) : ShardSet :=
  ⟨(List.range count).map (shardPath (.scratch dir) i), delimiter, some rows⟩

theorem file_shardFiles {count shard : Nat} (delimiter : UInt8) (rows : Nat) (h : shard < count) :
    (shardFiles dir i count delimiter rows).file shard = shardPath (.scratch dir) i shard := by
  simp [ShardSet.file, shardFiles, h]

/-- The set stands for the shards of a dataset; its files have been written in the second tree. -/
def Dataset.SplitInto (files after : FileTree) (d : Dataset) (delimiter : UInt8) (dir : Scratch)
    (i count : Nat) (set : ShardSet) : Prop :=
  (count ≤ 1 ∧ set = ⟨[d.path], delimiter, none⟩) ∨
    (1 < count ∧ ∃ sheet types places routed,
      d.Routes files delimiter count sheet types places routed ∧
      set = shardFiles dir i count delimiter routed.length ∧
      ∀ s, s < count → after.read (shardPath (.scratch dir) i s) =
        .ok (shardText delimiter sheet.header routed s))

/-- All that it takes to split a dataset. -/
def Dataset.Splittable (files : FileTree) (d : Dataset) (delimiter : UInt8) (dir : Scratch)
    (i count : Nat) : Prop :=
  1 < count → (∃ sheet types places routed,
      d.Routes files delimiter count sheet types places routed) ∧
    ∀ s, s < count → files.Takes (shardPath (.scratch dir) i s)

theorem writeShards_ensures {count : Nat} (text : Nat → Bytes) {contents : List (FilePath × Bytes)}
    {post : Outcome Unit → FileTree → Prop}
    (hcontents : contents =
      (List.range count).map fun s => (shardPath (.scratch dir) i s, text s))
    (hok : ∀ t', (∀ s, s < count → t'.read (shardPath (.scratch dir) i s) = .ok (text s)) →
      (∀ p, t.Takes p → t'.Takes p) → post (.ok ()) t')
    (herror : ∀ fault, ¬ (∀ s, s < count → t.Takes (shardPath (.scratch dir) i s)) →
      post (.error fault) t) :
    (Region (ownsShards dir) i).Ensures (writeShards contents) t post := by
  have hpaths : ∀ e ∈ contents, ∃ s, s < count ∧ e.1 = shardPath (.scratch dir) i s := by
    intro e he
    rw [hcontents] at he
    obtain ⟨s, hs, rfl⟩ := List.mem_map.1 he
    exact ⟨s, List.mem_range.1 hs, rfl⟩
  refine ensures_write (fun u u' h => ?_) (fun u hu => ?_) (mapError_ne_error (by simp) _)
    (fun t' h => ?_) fun fault h => ?_
  · refine agreeOn_writeFiles (mapError_eq_ok.1 h) fun e he l hl hnot => ?_
    obtain ⟨s, -, hs⟩ := hpaths e he
    rw [hs] at hl
    exact hnot ⟨s, leads_shardPath hl⟩
  · refine (hu.writeFiles fun e he => ?_).mapError _
    obtain ⟨s, -, hs⟩ := hpaths e he
    rw [hs]
    exact shardPath_seen s
  · have h := mapError_eq_ok.1 h
    refine hok t' (fun s hs => ?_) fun p hp => hp.writeFiles h
    rw [hcontents] at h
    exact read_writeFiles (fun _ _ h => (shardName_inj h).2) h s (List.mem_range.2 hs)
  · refine herror fault fun hall => ?_
    have hwrite : ∃ t', t.writeFiles contents = .ok t' := writeFiles_ok fun e he => by
      obtain ⟨s, hs, he⟩ := hpaths e he
      rw [he]
      exact hall s hs
    obtain ⟨t', ht'⟩ := hwrite
    rw [ht'] at h
    cases h

theorem shard_ensures (hdir : ¬ dir.location.Spelled) (d : Dataset) (delimiter : UInt8)
    (count : Nat) :
    (Region (ownsShards dir) i).Ensures (d.shard i delimiter count (.scratch dir)) t fun r u =>
      (∀ set, r = .ok set → d.SplitInto t u delimiter dir i count set) ∧
        (d.Splittable t delimiter dir i count → ∃ set, r = .ok set) := by
  unfold Dataset.shard
  by_cases hcount : count ≤ 1
  · rw [if_pos hcount]
    refine Footing.ensures_ok ⟨fun set hset => ?_, fun _ => ⟨_, rfl⟩⟩
    cases hset
    exact .inl ⟨hcount, rfl⟩
  rw [if_neg hcount]
  have hcount : 1 < count := by omega
  refine ensures_opened (ownsShards_not_spelled hdir) (fun sheet types places hopen => ?_)
    fun fault hnot => ⟨fun _ h => (nomatch h), fun h => ?_⟩
  swap
  · obtain ⟨sheet, types, places, routed, hr⟩ := (h hcount).1
    exact absurd hr.toOpened (hnot sheet types places)
  refine Footing.Ensures.bind (writeShards_ensures (fun _ => Csv.writeLine delimiter
    sheet.header) (by rw [List.map_map]; rfl) (fun t₁ _ htakes => ?_) fun fault hnot => ?_)
  swap
  · exact ⟨fun _ h => (nomatch h), fun h => absurd (h hcount).2 hnot⟩
  refine Footing.Ensures.bind ((routeRecords_ensures _ _ _ _ _).mono fun r u hr => ?_)
  obtain ⟨rfl, hr⟩ := hr
  cases r with
  | error fault =>
    refine ⟨fun _ h => (nomatch h), fun h => ?_⟩
    -- a dataset whose records can all be routed does not fail here
    obtain ⟨sheet', types', places', routed, hroutes⟩ := (h hcount).1
    cases hopen.read.symm.trans hroutes.read
    cases hopen.resolves.symm.trans hroutes.resolves
    cases hopen.placed.symm.trans hroutes.placed
    exact nomatch (hr _).2 ⟨routed, hroutes.routes, rfl⟩
  | ok routed =>
    obtain ⟨routed', hrouted, hrs⟩ := (hr routed).1 rfl
    obtain rfl : routed = routed' := by simpa using hrs
    refine Footing.Ensures.bind (writeShards_ensures (shardText delimiter sheet.header
      routed) List.zip_map' (fun t₂ hreads _ => ?_) fun fault hnot => ?_)
    · refine Footing.ensures_ok ⟨fun set hset => ?_, fun _ => ⟨_, rfl⟩⟩
      cases hset
      exact .inr ⟨hcount, sheet, types, places, routed, ⟨hopen, hrouted⟩, rfl, hreads⟩
    · exact ⟨fun _ h => (nomatch h), fun h => absurd (fun s hs => htakes _ ((h hcount).2 s hs)) hnot⟩

theorem untied_shard {n : Nat} (d : Dataset) (delimiter : UInt8) (count : Nat) (folder : Folder) :
    (d.shard i delimiter count folder).Untied fun _ => n := by
  unfold Dataset.shard
  split
  · exact trivial
  · refine Task.untied_read.bind fun files => (Task.untied_done _).bind fun sheet =>
      (Task.untied_done _).bind fun types => (Task.untied_done _).bind fun places => ?_
    refine (Task.untied_attempt fun _ _ _ => rfl).bind fun _ => ?_
    refine (untied_routeRecords _ _ _ _ _).bind fun routed => ?_
    exact (Task.untied_attempt fun _ _ _ => rfl).bind fun _ => trivial

/-! ## Tasks -/

/-- The delimiter of a dataset that has been prepared. -/
def Dataset.separator (d : Dataset) : UInt8 := d.delimiter.getD Delimiter.comma

section Prepared

variable {d d' : Dataset} {c : Coercion} {delimiter : UInt8} {sheet : Csv.Sheet}
  {types : List ColumnType} {places : List Nat}

theorem Dataset.Prepared.path_eq (h : d.Prepared t d' c delimiter sheet types places) :
    d'.path = d.path := by
  rw [h.result]

theorem Dataset.Prepared.separator_eq (h : d.Prepared t d' c delimiter sheet types places) :
    d'.separator = delimiter := by
  rw [h.result]
  rfl

/-- With the delimiter that it has then, a prepared dataset is read as what was seen of it. -/
theorem Dataset.Prepared.read (h : d.Prepared t d' c delimiter sheet types places) :
    t.readSheet d.path d'.separator = .ok sheet := by
  rw [h.separator_eq]
  exact h.scanned.read

end Prepared

/-- What the task of a dataset comes to. -/
def SplitAs (d : Dataset) (files : FileTree) (dir : Scratch) (i count : Nat) (r : Outcome ShardSet)
    (after : FileTree) : Prop :=
  (∀ set, r = .ok set → d.SplitInto files after d.separator dir i count set) ∧
    (d.Splittable files d.separator dir i count → ∃ set, r = .ok set)

theorem shardTask_ensures (hdir : ¬ dir.location.Spelled) (count : Nat) (d : Dataset)
    (s : Session) :
    (Region (ownsShards dir) i).onFiles.Ensures (shardTask count (.scratch dir) i d) s fun r v =>
      SplitAs d s.files dir i count r v.files := by
  unfold shardTask
  refine Footing.Ensures.bind (ensures_onFiles ((shard_ensures hdir d _ count).mono fun r u h => ?_))
  cases r with
  | error fault => exact ⟨fun _ h' => (nomatch h'), fun h' => (h.2 h').elim fun _ h' => nomatch h'⟩
  | ok set =>
    have hend : ∀ a : Session, a.files = u →
        (Region (ownsShards dir) i).onFiles.Ensures
          ((Task.emit (.datasetSharded i set.rows)).bind fun _ => Task.succeed set) a fun r v =>
            SplitAs d s.files dir i count r v.files := by
      intro a ha
      refine Footing.Ensures.bind (ensures_aside (fun _ => rfl) (Footing.ensures_ok ?_))
      refine ⟨fun set' hset' => ?_, fun _ => ⟨set, rfl⟩⟩
      cases hset'
      have := h.1 set rfl
      rw [← ha] at this
      exact this
    dsimp only
    split
    · exact Footing.Ensures.bind (ensures_aside (fun _ => rfl) (hend _ rfl))
    · exact hend _ rfl

theorem untied_shardTask {n : Nat} (count : Nat) (folder : Folder) (d : Dataset) :
    (shardTask count folder i d).Untied fun _ => n := by
  unfold shardTask
  refine (untied_onFiles (untied_shard _ _ _ _) fun _ _ => rfl).bind fun set => ?_
  have hend : ((Task.emit (.datasetSharded i set.rows)).bind fun _ => Task.succeed set).Untied
      fun _ => n :=
    (untied_emit fun _ => rfl).bind fun _ => Task.untied_done _
  dsimp only
  split
  · exact (untied_count fun _ _ => rfl).bind fun _ => hend
  · exact hend

/-! ## The stage -/

/-- The tasks that split datasets. -/
def shardingTasks (count : Nat) (folder : Folder) (datasets : List Dataset) :
    List (Task Session ShardSet) :=
  datasets.zipIdx.map fun (d, i) => shardTask count folder i d

theorem getElem?_shardingTasks {count : Nat} {folder : Folder} {datasets : List Dataset}
    {task : Task Session ShardSet} (h : (shardingTasks count folder datasets)[i]? = some task) :
    ∃ d, datasets[i]? = some d ∧ task = shardTask count folder i d := by
  simp only [shardingTasks, List.getElem?_map, Option.map_eq_some_iff] at h
  obtain ⟨⟨d, j⟩, hd, rfl⟩ := h
  rw [List.getElem?_zipIdx, Option.map_eq_some_iff] at hd
  obtain ⟨d', hd', hpair⟩ := hd
  cases hpair
  exact ⟨d, hd', by rw [Nat.zero_add]⟩

theorem orderly_sharding (hdir : ¬ dir.location.Spelled) (count : Nat) (datasets : List Dataset)
    (o : Session) :
    Orderly (ownsShards dir) (fun _ => 1) (shardingTasks count (.scratch dir) datasets) o
      fun i r v => ∀ d, datasets[i]? = some d → SplitAs d o.files dir i count r v.files where
  unique _ _ _ := ownsShards_unique
  ensures i task htask := by
    obtain ⟨d, hd, rfl⟩ := getElem?_shardingTasks htask
    refine (shardTask_ensures hdir count d o).mono fun r v h d' hd' => ?_
    cases hd.symm.trans hd'
    exact h
  balanced task htask := by
    obtain ⟨p, -, rfl⟩ := List.mem_map.1 htask
    exact (untied_shardTask _ _ _).balanced

theorem Dataset.SplitInto.congr {d : Dataset} {delimiter : UInt8} {count : Nat} {set : ShardSet}
    {after after' : FileTree} (h : d.SplitInto t after delimiter dir i count set)
    (hafter : AgreeOn (Unowned (ownsShards dir) i) after after') :
    d.SplitInto t after' delimiter dir i count set := by
  rcases h with h | ⟨hcount, sheet, types, places, routed, hroutes, hset, hreads⟩
  · exact .inl h
  · refine .inr ⟨hcount, sheet, types, places, routed, hroutes, hset, fun s hs => ?_⟩
    rw [← hreads s hs]
    exact (hafter.read (shardPath_seen s)).symm

theorem sharding_values (hdir : ¬ dir.location.Spelled) {count : Nat} {datasets : List Dataset}
    {schedule : Schedule} {o v : Session} {sets : List ShardSet}
    (h : fanOut schedule (shardingTasks count (.scratch dir) datasets) o = (.ok sets, v)) :
    sets.length = datasets.length ∧ ∀ (i : Nat) (d : Dataset) (set : ShardSet),
      datasets[i]? = some d → sets[i]? = some set →
        d.SplitInto o.files v.files d.separator dir i count set := by
  have hstage := (fanOut_orderly (orderly_sharding hdir count datasets o) (AgreeOn.refl _ _)
    Nat.one_pos schedule).2
  rw [h] at hstage
  rcases hstage with ⟨values, hok, hlength, hvalues⟩ | ⟨i, task, fault, u, -, herror, -⟩
  · cases hok
    refine ⟨by rw [hlength]; simp [shardingTasks], fun i d set hd hset => ?_⟩
    obtain ⟨task, u, -, -, hsplit, hu⟩ := hvalues i set hset
    exact ((hsplit d hd).1 set rfl).congr hu
  · cases herror

theorem sharding_succeeds (hdir : ¬ dir.location.Spelled) {count : Nat} {datasets : List Dataset}
    {o : Session} (h : ∀ (i : Nat) (d : Dataset), datasets[i]? = some d →
      d.Splittable o.files d.separator dir i count) (schedule : Schedule) :
    ∃ sets v, fanOut schedule (shardingTasks count (.scratch dir) datasets) o = (.ok sets, v) := by
  rcases hx : fanOut schedule (shardingTasks count (.scratch dir) datasets) o with ⟨r, v⟩
  have hstage := (fanOut_orderly (orderly_sharding hdir count datasets o) (AgreeOn.refl _ _)
    Nat.one_pos schedule).2
  rw [hx] at hstage
  rcases hstage with ⟨sets, hok, -⟩ | ⟨i, task, fault, u, htask, -, -, -, hsplit⟩
  · obtain rfl : r = .ok sets := hok
    exact ⟨sets, v, rfl⟩
  · obtain ⟨d, hd, -⟩ := getElem?_shardingTasks htask
    obtain ⟨set, hset⟩ := (hsplit d hd).2 (h i d hd)
    cases hset

theorem Dataset.SplitInto.fits {d : Dataset} {delimiter : UInt8} {count shard : Nat}
    {set : ShardSet} {after : FileTree} (h : d.SplitInto t after delimiter dir i count set)
    (hshard : shard < count) :
    (set.rows = none ∧ set.file shard = .spelled d.path) ∨
      set.file shard = shardPath (.scratch dir) i shard := by
  rcases h with ⟨hcount, rfl⟩ | ⟨hcount, sheet, types, places, routed, -, rfl, -⟩
  · obtain rfl : shard = 0 := by omega
    exact .inl ⟨rfl, rfl⟩
  · exact .inr (file_shardFiles delimiter routed.length hshard)

end Equijoin
