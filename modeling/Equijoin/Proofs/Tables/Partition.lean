import Equijoin.Proofs.Files.Folders
import Equijoin.Proofs.Tables.Shards
import Equijoin.Proofs.Text.Legible

/-! # Datasets in shards

A dataset that is split has each of its records in the file of one shard, that of its key, and the
records of a shard are in their order there. The shard files can be read back if the header can.

* `recordKey`: the canonical key of a record.
* `recordsOf`: the records of a shard.
* `alone_bind_ok`: what a task does that succeeds as the first of two.
* `alone_routeRecords`: the records and their shards.
* `shard_partitions`: what a dataset is split into.
-/

set_option autoImplicit false

namespace Equijoin

open FileTree

/-! ## Keys of records -/

/-- The canonical key of a record, by its cells in the key columns. A cell that cannot be read is
taken for a missing value. -/
def recordKey (columns : List KeyColumn) (cells : List String) : Key :=
  columns.map fun c =>
    match Value.ofCell c.storage ((cells[c.place]?).getD "") with
    | .ok v => KeyAtom.ofValue v
    | .error _ => .null

/-- The records whose keys go to a shard, in their order. -/
def recordsOf (columns : List KeyColumn) (count shard : Nat) (records : List (List String)) :
    List (List String) :=
  records.filter fun cells => (recordKey columns cells).shard count == shard

/-- Each record is in one shard, once. -/
theorem flatMap_recordsOf_perm (columns : List KeyColumn) (records : List (List String))
    {count : Nat} (hcount : 0 < count) :
    ((List.range count).flatMap fun shard => recordsOf columns count shard records).Perm
      records := by
  have hlt : ∀ cells ∈ records, (recordKey columns cells).shard count < count :=
    fun _ _ => Nat.mod_lt _ hcount
  unfold recordsOf
  rw [flatMap_filter _ count hlt]
  exact List.mergeSort_perm _ _

theorem eq_recordKey {columns : List KeyColumn} {cells : List String} {key : Key}
    (h : List.Forall₂ (KeyColumn.Holds cells) columns key) : key = recordKey columns cells := by
  induction h with
  | nil => rfl
  | @cons c a columns key hc _ ih =>
    obtain ⟨v, hv, rfl⟩ := hc
    rw [ih, recordKey, recordKey, List.map_cons, hv]

/-! ## Tasks that succeed -/

section Alone

variable {σ α β : Type} {raised : Bool}

/-- If two tasks succeed one after the other, the first one does. -/
theorem alone_bind_ok {t : Task σ α} {f : α → Task σ β} {s s' : σ} {b : β}
    (h : (t.bind f).alone raised s = some (.ok b, s')) :
    ∃ a u, t.alone raised s = some (.ok a, u) ∧ (f a).alone raised u = some (.ok b, s') := by
  induction t generalizing s with
  | done r =>
    cases r with
    | ok a => exact ⟨a, s, rfl, h⟩
    | error fault => cases h
  | look next ih => exact ih raised h
  | step change next ih =>
    cases hs : change s with
    | none => simp [Task.alone, Task.finish, hs] at h
    | some u =>
      rw [Task.step_bind, Task.alone_step raised _ hs] at h
      rw [Task.alone_step raised next hs]
      exact ih s h

theorem alone_done_ok {r : Outcome α} {s s' : σ} {a : α}
    (h : (Task.done r).alone raised s = some (.ok a, s')) : r = .ok a ∧ s = s' := by
  cases h
  exact ⟨rfl, rfl⟩

/-- Records that are routed go to the shards of their keys. -/
theorem alone_routeRecords {columns : List KeyColumn} {count row : Nat}
    {earlier routed : List Routed} {records : List (Except Csv.Fault (List String))} {s s' : σ}
    (h : (routeRecords columns count row earlier records).alone raised s = some (.ok routed, s')) :
    s = s' ∧ ∃ cells : List (List String), records = cells.map .ok ∧
      (∀ r ∈ cells, List.Forall₂ (KeyColumn.Holds r) columns (recordKey columns r)) ∧
      routed = earlier.reverse ++ cells.map fun r => ⟨(recordKey columns r).shard count, r⟩ := by
  induction records generalizing row earlier with
  | nil =>
    obtain ⟨hok, rfl⟩ := alone_done_ok h
    refine ⟨rfl, [], rfl, fun r hr => absurd hr List.not_mem_nil, ?_⟩
    rw [List.map_nil, List.append_nil, Except.ok.inj hok]
  | cons record records ih =>
    cases record with
    | error fault => cases h
    | ok cells =>
      rw [routeRecords] at h
      obtain ⟨⟨⟩, u, hcheck, h⟩ := alone_bind_ok h
      obtain ⟨key, u', hkey, h⟩ := alone_bind_ok h
      obtain ⟨hread, rfl⟩ := alone_done_ok hkey
      obtain rfl : s = u := by
        cases raised with
        | true => cases hcheck
        | false =>
          cases hcheck
          rfl
      obtain ⟨hsame, rest, rfl, hholds, rfl⟩ := ih h
      have hkeys := readKey_eq_ok.1 hread
      have hname := eq_recordKey hkeys
      refine ⟨hsame, cells :: rest, rfl, fun r hr => ?_, ?_⟩
      · rcases List.mem_cons.1 hr with rfl | hr
        · rwa [← hname]
        · exact hholds r hr
      · rw [hname]
        simp

theorem alone_writeShards {contents : List (FilePath × Bytes)} {files after : FileTree}
    (h : (writeShards contents).alone raised files = some (.ok (), after)) :
    files.writeFiles contents = .ok after := by
  cases hwrite : files.writeFiles contents with
  | error fault =>
    simp only [writeShards, Task.attempt, Task.alone, Task.finish, hwrite] at h
    cases h
  | ok t =>
    simp only [writeShards, Task.attempt, Task.alone, Task.finish, hwrite] at h
    cases h
    rfl

end Alone

/-! ## Shard files -/

/-- What a dataset is split into: a file for each shard, with the records whose keys go there. -/
structure Dataset.Partitioned (files after : FileTree) (d : Dataset) (delimiter : UInt8)
    (index count : Nat) (folder : Folder) (set : ShardSet) (header : List String)
    (records : List (List String)) (types : List ColumnType) (places : List Nat) : Prop
    extends d.Opened files delimiter ⟨header, records.map .ok⟩ types places where
  keyed : ∀ cells ∈ records, List.Forall₂ (KeyColumn.Holds cells) (keyColumns header types places)
    (recordKey (keyColumns header types places) cells)
  /-- The key of a record is the key by which its row is joined. -/
  joined : ∀ cells ∈ records, ∀ row, Table.Holds (Table.columnsOf header types) cells row →
    Key.ofRow row places = recordKey (keyColumns header types places) cells
  set_eq : set = ⟨(List.range count).map (shardPath folder index), delimiter, some records.length⟩
  read_iff : ∀ shard, shard < count → (after.readSheet (shardPath folder index shard) delimiter =
    .ok ⟨header, (recordsOf (keyColumns header types places) count shard records).map .ok⟩ ↔
      Csv.Legible delimiter header)
  perm : ((List.range count).flatMap fun shard =>
    recordsOf (keyColumns header types places) count shard records).Perm records

variable {d : Dataset} {index count : Nat} {delimiter : UInt8} {folder : Folder} {raised : Bool}
  {files after : FileTree} {set : ShardSet}

theorem shardText_map (delimiter : UInt8) (header : List String) (columns : List KeyColumn)
    (count shard : Nat) (records : List (List String)) :
    shardText delimiter header
        (records.map fun r => ⟨(recordKey columns r).shard count, r⟩) shard =
      Csv.writeLine delimiter header ++
        (recordsOf columns count shard records).flatMap (Csv.writeLine delimiter) := by
  unfold shardText recordsOf
  rw [List.filter_map, List.flatMap_map]
  rfl

/-- What has been done when a dataset is split. -/
theorem alone_shard (hcount : 1 < count)
    (h : (d.shard index delimiter count folder).alone raised files = some (.ok set, after)) :
    ∃ (header : List String) (records : List (List String)) (types : List ColumnType)
        (places : List Nat), d.Opened files delimiter ⟨header, records.map .ok⟩ types places ∧
      (∀ cells ∈ records, List.Forall₂ (KeyColumn.Holds cells) (keyColumns header types places)
        (recordKey (keyColumns header types places) cells)) ∧
      set = ⟨(List.range count).map (shardPath folder index), delimiter, some records.length⟩ ∧
      ∃ t : FileTree, t.writeFiles ((List.range count).map fun shard =>
        (shardPath folder index shard, shardText delimiter header (records.map fun r =>
          ⟨(recordKey (keyColumns header types places) r).shard count, r⟩) shard)) = .ok after := by
  unfold Dataset.shard at h
  rw [if_neg (by omega)] at h
  obtain ⟨_, _, hfiles, h⟩ := alone_bind_ok h
  cases hfiles
  obtain ⟨⟨header, read⟩, _, hsheet, h⟩ := alone_bind_ok h
  obtain ⟨hread, rfl⟩ := alone_done_ok hsheet
  obtain ⟨types, _, hschema, h⟩ := alone_bind_ok h
  obtain ⟨htypes, rfl⟩ := alone_done_ok hschema
  obtain ⟨places, _, hkey, h⟩ := alone_bind_ok h
  obtain ⟨hplaces, rfl⟩ := alone_done_ok hkey
  obtain ⟨⟨⟩, t, -, h⟩ := alone_bind_ok h
  obtain ⟨routed, _, hrouted, h⟩ := alone_bind_ok h
  obtain ⟨rfl, records, hrecords, hkeyed, rfl⟩ := alone_routeRecords hrouted
  obtain rfl : read = records.map .ok := hrecords
  obtain ⟨⟨⟩, _, hwrite, h⟩ := alone_bind_ok h
  obtain ⟨hset, rfl⟩ := alone_done_ok h
  have hwritten := alone_writeShards hwrite
  rw [List.zip_map'] at hwritten
  refine ⟨header, records, types, places,
    ⟨hread, mapError_eq_ok.1 htypes, mapError_eq_ok.1 hplaces⟩, hkeyed, ?_, t, hwritten⟩
  rw [← Except.ok.inj hset]
  simp

/-- A dataset that is split has each record in the file of the shard of its key. The shard files are
read as the header and the records of the shard exactly if the header is legible. -/
theorem shard_partitions (hd : Csv.Separates delimiter) (hcount : 1 < count)
    (h : (d.shard index delimiter count folder).alone raised files = some (.ok set, after)) :
    ∃ header records types places, d.Partitioned files after delimiter index count folder set
      header records types places := by
  obtain ⟨header, records, types, places, hopen, hkeyed, hset, t, hwritten⟩ := alone_shard hcount h
  have hwidth : ∀ cells ∈ records, cells.length = header.length := fun cells hcells =>
    width_of_readSheet hopen.read (List.mem_map_of_mem hcells)
  refine ⟨header, records, types, places, hopen, hkeyed, fun cells hcells row hrow => ?_, hset,
    fun shard hshard => ?_, ?_⟩
  · exact ((holds_keyColumns (length_resolve hopen.resolves) (hwidth cells hcells) hrow
      (positions_lt_length hopen.placed)).1 (hkeyed cells hcells)).symm
  · have hfile := read_folder (fun s => isName_shardName index s)
      (fun i j hij => (shardName_inj hij).2) hwritten shard (List.mem_range.2 hshard)
    have hpart : ∀ cells ∈ recordsOf (keyColumns header types places) count shard records,
        cells.length = header.length := fun cells hcells =>
      hwidth cells (List.mem_filter.1 hcells).1
    rw [← Csv.read_lines_iff hd hpart]
    unfold FileTree.readSheet
    rw [show shardPath folder index shard = folder.file (shardName index shard) from rfl, hfile,
      shardText_map]
    exact mapError_eq_ok
  · exact flatMap_recordsOf_perm _ records (by omega)

/-- The header of the file begins with two byte order marks. -/
def markedDataset : Dataset :=
  ⟨"a.csv", ⟨["\uFEFFid"], ["x"], [], [.int], [.text], []⟩, ["\uFEFFid"], some Delimiter.comma⟩

def markedFiles : FileTree :=
  (FileTree.empty.put [.given "a.csv"]
    (.file (Utf8.encode "\uFEFF\uFEFFid,x\n1,a\n7,b\n"))).put [.given "shards"] .directory

/-- A dataset with such a header is split into two shards, but their files are not read back. -/
theorem shard_partitions_marked :
    Csv.Separates Delimiter.comma ∧ 1 < 2 ∧ ∃ set after,
      (markedDataset.shard 0 Delimiter.comma 2 "shards").alone false markedFiles =
        some (.ok set, after) ∧
      ∃ header records types places, header = ["\uFEFFid", "x"] ∧
        markedDataset.Partitioned markedFiles after Delimiter.comma 0 2 "shards" set header records
          types places ∧ ¬ Csv.Legible Delimiter.comma header := by
  have hseparates : Csv.Separates Delimiter.comma := ⟨by decide, by decide⟩
  have hruns : ((markedDataset.shard 0 Delimiter.comma 2 "shards").alone false markedFiles).map
      (fun p => p.1.isOk) = some true := by decide +kernel
  obtain ⟨⟨r, after⟩, halone, hok⟩ := Option.map_eq_some_iff.1 hruns
  cases r with
  | error fault => cases hok
  | ok set =>
    obtain ⟨header, records, types, places, h⟩ := shard_partitions hseparates Nat.one_lt_two halone
    have hheader : header = ["\uFEFFid", "x"] := by
      have hread : (markedFiles.readSheet "a.csv" Delimiter.comma).map Csv.Sheet.header =
          .ok ["\uFEFFid", "x"] := by decide +kernel
      rw [show markedFiles.readSheet "a.csv" Delimiter.comma = _ from h.read] at hread
      exact Except.ok.inj hread
    refine ⟨hseparates, Nat.one_lt_two, set, after, halone, header, records, types, places, hheader,
      h, ?_⟩
    rw [hheader]
    rintro ⟨name, names, hcons, hname⟩
    obtain ⟨rfl, -⟩ := List.cons.inj hcons
    obtain ⟨b, hb, hneeds⟩ := hname (by decide)
    have hplain : ∀ b ∈ Utf8.encode "\uFEFFid", Csv.needsQuotes Delimiter.comma b = false := by
      decide +kernel
    cases (hplain b hb).symm.trans hneeds

end Equijoin
