import Equijoin.Proofs.Tables.Retyping
import Equijoin.Proofs.Tables.TextKeys
import Equijoin.Proofs.Tasks.Yields

/-! # What coercion promotes

The scan of a file drops one candidate after another and may end early, and the flag may be raised
between any two records. Whatever it finds, it promotes the key columns of text that hold nothing
but numbers and blanks, or it fails and promotes none.

* `Csv.Sheet.HoldsNumbers`: a column of numbers and blanks in a file that can be read to its end.
* `yields_scanRecords`, `yields_coercion`: what a scan may come to.
* `yields_opened`: what a task may come to that opens a dataset first.
* `Dataset.Scanned.mem_promoted_iff`: which names are promoted.
* `Desk`, `Desk.coerce`: coercion of a dataset in its place, whose schema is changed name by name.
* `Desk.yields_coerce`: it comes to what `Dataset.coerce` does.
* `coerce_promotes`: coercion promotes these columns and changes nothing else.
-/

set_option autoImplicit false

namespace Equijoin

/-! ## Scans -/

/-- All records can be read. -/
def Csv.Sheet.Readable (sheet : Csv.Sheet) : Prop :=
  ∀ record ∈ sheet.records, ∃ cells, record = .ok cells

/-- Every record has a cell in the first column of the name that is blank or a number. -/
def Csv.Sheet.HoldsNumbers (sheet : Csv.Sheet) (name : String) : Prop :=
  ∃ i, sheet.header.idxOf? name = some i ∧
    ∀ record ∈ sheet.records, ∃ cells raw, record = .ok cells ∧ cells[i]? = some raw ∧
      (Text.trim raw = "" ∨ (Binary64.read? (Text.trim raw)).isSome)

/-- Whatever the flag is at each record, a scan that succeeds leaves the candidates that survive all
records, and has read all of them if a candidate is left. -/
theorem yields_scanRecords {rows : Nat} {cs : List Candidate}
    {records : List (Except Csv.Fault (List String))} {s u : FileTree} {r : Outcome Coercion}
    (h : (scanRecords rows cs records).Yields s r u) : s = u ∧ ∀ c, r = .ok c →
      c.promoted = (cs.filter (Candidate.survivesAll records)).map Candidate.name ∧
        (c.promoted ≠ [] → c.rowsScanned = rows + records.length ∧
          ∀ record ∈ records, ∃ cells, record = .ok cells) := by
  induction records generalizing rows cs with
  | nil =>
    rw [scanRecords] at h
    obtain ⟨rfl, rfl⟩ := h
    refine ⟨rfl, fun c hc => ?_⟩
    cases hc
    have hall : cs.filter (Candidate.survivesAll []) = cs :=
      List.filter_eq_self.2 fun c _ => rfl
    exact ⟨by rw [hall], fun _ => ⟨rfl, fun _ hrecord => absurd hrecord List.not_mem_nil⟩⟩
  | cons record records ih =>
    cases cs with
    | nil =>
      rw [scanRecords] at h
      obtain ⟨rfl, rfl⟩ := h
      refine ⟨rfl, fun c hc => ?_⟩
      cases hc
      exact ⟨rfl, fun hne => absurd rfl hne⟩
    | cons c cs =>
      cases record with
      | error fault =>
        rw [scanRecords] at h
        obtain ⟨rfl, rfl⟩ := h
        exact ⟨rfl, fun c hc => by cases hc⟩
      | ok cells =>
        rw [scanRecords, Task.bind_eq, Task.yields_bind] at h
        rcases h with ⟨⟨⟩, v, hcheck, h⟩ | ⟨fault, hcheck, rfl⟩
        · obtain ⟨-, rfl⟩ := Task.yields_check.1 hcheck
          obtain ⟨rfl, hscan⟩ := ih h
          refine ⟨rfl, fun found hfound => ?_⟩
          obtain ⟨hpromoted, hcomplete⟩ := hscan found hfound
          refine ⟨?_, fun hne => ?_⟩
          · rw [hpromoted, List.filter_filter]
            congr 1
            refine List.filter_congr fun c' _ => ?_
            rw [Candidate.survivesAll, Candidate.survivesAll, List.all_cons, Bool.and_comm]
          · obtain ⟨hrows, hrecords⟩ := hcomplete hne
            refine ⟨by rw [hrows, List.length_cons]; omega, fun record hrecord => ?_⟩
            rcases List.mem_cons.1 hrecord with rfl | hrecord
            · exact ⟨cells, rfl⟩
            · exact hrecords record hrecord
        · exact ⟨(Task.yields_check.1 hcheck).2, fun c hc => by cases hc⟩

/-- A task that opens a dataset first goes on with what it finds there, or fails for the text of the
file or for its header. -/
theorem yields_opened {α : Type} {d : Dataset} {delimiter : UInt8}
    {f : Csv.Sheet → List ColumnType → List Nat → Task FileTree α} {files u : FileTree}
    {r : Outcome α} (h : Task.Yields (do
      let files ← (Task.read : Task FileTree FileTree)
      let sheet ← Task.ofOutcome (files.readSheet d.path delimiter)
      let types ← Task.ofOutcome (d.schema.resolveSheet sheet)
      let places ← Task.ofOutcome ((positions sheet.header d.key).mapError Fault.schema)
      f sheet types places) files r u) :
    (∃ sheet types places, d.Opened files delimiter sheet types places ∧
        (f sheet types places).Yields files r u) ∨
      ∃ fault, r = .error fault ∧ files = u ∧
        ((∃ e, fault = .csv e) ∨ ∃ e, fault = .schema e) := by
  rw [Task.bind_eq, Task.yields_read_bind] at h
  rcases Task.yields_done_bind.1 h with ⟨sheet, hsheet, h⟩ | ⟨fault, hfault, rfl, rfl⟩
  · rcases Task.yields_done_bind.1 h with ⟨types, htypes, h⟩ | ⟨fault, hfault, rfl, rfl⟩
    · rcases Task.yields_done_bind.1 h with ⟨places, hplaces, h⟩ | ⟨fault, hfault, rfl, rfl⟩
      · exact .inl ⟨sheet, types, places,
          ⟨hsheet, mapError_eq_ok.1 htypes, mapError_eq_ok.1 hplaces⟩, h⟩
      · obtain ⟨e, -, rfl⟩ := mapError_eq_error.1 hfault
        exact .inr ⟨_, rfl, rfl, .inr ⟨e, rfl⟩⟩
    · obtain ⟨e, -, rfl⟩ := mapError_eq_error.1 hfault
      exact .inr ⟨_, rfl, rfl, .inr ⟨e, rfl⟩⟩
  · obtain ⟨e, rfl⟩ := readSheet_eq_error hfault
    exact .inr ⟨_, rfl, rfl, .inl ⟨e, rfl⟩⟩

theorem yields_coercion {d : Dataset} {delimiter : UInt8} {files u : FileTree}
    {r : Outcome Coercion} (h : (d.coercion delimiter).Yields files r u) :
    files = u ∧ ∀ c, r = .ok c → ∃ sheet types places,
      d.Scanned files delimiter sheet types places c.promoted ∧
        (c.promoted ≠ [] → c.rowsScanned = sheet.records.length ∧ sheet.Readable) := by
  rcases yields_opened h with ⟨sheet, types, places, hopen, h⟩ | ⟨fault, rfl, rfl, -⟩
  · obtain ⟨rfl, hscan⟩ := yields_scanRecords h
    refine ⟨rfl, fun c hc => ?_⟩
    obtain ⟨hpromoted, hcomplete⟩ := hscan c hc
    refine ⟨sheet, types, places, ⟨hopen, hpromoted⟩, fun hne => ?_⟩
    obtain ⟨hrows, hrecords⟩ := hcomplete hne
    exact ⟨by rw [hrows, Nat.zero_add], hrecords⟩
  · exact ⟨rfl, fun c hc => by cases hc⟩

section Scanned

variable {files : FileTree} {d : Dataset} {delimiter : UInt8} {sheet : Csv.Sheet}
  {types : List ColumnType} {places : List Nat} {promoted : List String} {name : String}

theorem Dataset.Opened.exists_place (h : d.Opened files delimiter sheet types places)
    (hname : name ∈ d.key) : ∃ i, (i, name) ∈ places.zip d.key := by
  obtain ⟨k, hk⟩ := List.mem_iff_getElem?.1 hname
  obtain ⟨i, hi, -⟩ := getElem?_of_forall₂ (positions_eq_ok.1 h.placed) hk
  exact ⟨i, List.mem_of_getElem? (List.getElem?_zip_eq_some.2 ⟨hi, hk⟩)⟩

theorem Dataset.Scanned.mem_key (h : d.Scanned files delimiter sheet types places promoted)
    (hname : name ∈ promoted) : ∃ i, (i, name) ∈ places.zip d.key ∧
      (d.schema.lookup name).map Declaration.type = some .text := by
  rw [h.promotes, List.mem_map] at hname
  obtain ⟨c, hc, rfl⟩ := hname
  obtain ⟨hkey, htype⟩ := mem_candidates.1 (List.mem_filter.1 hc).1
  exact ⟨c.place, hkey, h.type hkey ▸ htype⟩

theorem dropRepeats_sublist {α : Type} [DecidableEq α] (xs : List α) :
    (dropRepeats xs).Sublist xs := by
  fun_induction dropRepeats xs with
  | case1 => exact List.Sublist.refl _
  | case2 => exact List.Sublist.refl _
  | case3 b rest ih => exact ih.cons b
  | case4 b c rest hne ih => exact ih.cons_cons b

/-- Names are promoted in the order of the key. -/
theorem Dataset.Scanned.sublist_key (h : d.Scanned files delimiter sheet types places promoted) :
    promoted.Sublist d.key := by
  have hcandidates : ((candidates types places d.key).map Candidate.name).Sublist
      ((places.zip d.key).map Prod.snd) := by
    refine ((dropRepeats_sublist _).map _).trans ?_
    rw [List.map_map]
    exact List.filter_sublist.map Prod.snd
  rw [List.map_snd_zip (positions_eq_ok.1 h.placed).length_eq.le] at hcandidates
  rw [h.promotes]
  exact (List.filter_sublist.map _).trans hcandidates

/-- The names that are promoted are those of key columns of text that hold numbers. -/
theorem Dataset.Scanned.mem_promoted_iff
    (h : d.Scanned files delimiter sheet types places promoted)
    (hreadable : promoted ≠ [] → sheet.Readable) : name ∈ promoted ↔
      name ∈ d.key ∧ (d.schema.lookup name).map Declaration.type = some .text ∧
        sheet.HoldsNumbers name := by
  constructor
  · intro hname
    obtain ⟨i, hi, htext⟩ := h.mem_key hname
    have hnumeric := (h.mem_promoted hi htext).1 hname
    refine ⟨(List.of_mem_zip hi).2, htext, i, h.place hi, fun record hrecord => ?_⟩
    obtain ⟨cells, rfl⟩ := hreadable (List.ne_nil_of_mem hname) record hrecord
    have hwidth : i < cells.length := by
      rw [width_of_readSheet h.read hrecord]
      exact Schema.idxOf?_lt (h.place hi)
    have hcell := List.all_eq_true.1 hnumeric _ hrecord
    dsimp only at hcell
    rw [List.getElem?_eq_getElem hwidth, Option.getD_some] at hcell
    refine ⟨cells, cells[i], rfl, List.getElem?_eq_getElem hwidth, ?_⟩
    simpa [isNumeric] using hcell
  · rintro ⟨hkey, htext, i, hplace, hcells⟩
    obtain ⟨j, hj⟩ := h.exists_place hkey
    cases hplace.symm.trans (h.place hj)
    refine (h.mem_promoted hj htext).2 (List.all_eq_true.2 fun record hrecord => ?_)
    obtain ⟨cells, raw, rfl, hraw, hnumeric⟩ := hcells record hrecord
    dsimp only
    rw [hraw, Option.getD_some]
    simpa [isNumeric] using hnumeric

end Scanned

/-! ## Coercion in place -/

/-- Files, and a dataset that coercion changes where it stands. -/
structure Desk where
  files : FileTree
  dataset : Dataset

namespace Desk

def withFiles (desk : Desk) (files : FileTree) : Desk := { desk with files := files }

def withSchema (desk : Desk) (schema : Schema) : Desk :=
  { desk with dataset := { desk.dataset with schema := schema } }

/-- The columns become floats, one after another. -/
def promote : List String → Task Desk Unit
  | [] => Task.succeed ()
  | name :: names => do
    Task.act fun desk => desk.withSchema (desk.dataset.schema.setType name .float64)
    promote names

def coerce (delimiter : UInt8) : Task Desk Coercion := do
  let desk ← Task.read
  let done ← (desk.dataset.coercion delimiter).within Desk.files Desk.withFiles
  promote done.promoted
  Task.succeed done

theorem yields_promote {names : List String} {desk desk' : Desk} {r : Outcome Unit} :
    (promote names).Yields desk r desk' ↔
      .ok () = r ∧ desk.withSchema (desk.dataset.schema.promote names) = desk' := by
  induction names generalizing desk with
  | nil => exact Iff.rfl
  | cons name names ih =>
    rw [promote, Task.bind_eq, Task.yields_bind]
    constructor
    · rintro (⟨_, v, hset, h⟩ | ⟨fault, hset, -⟩)
      · obtain ⟨-, rfl⟩ := Task.yields_act.1 hset
        exact ih.1 h
      · cases (Task.yields_act.1 hset).1
    · exact fun h => .inl ⟨(), _, Task.yields_act.2 ⟨rfl, rfl⟩, ih.2 h⟩

theorem yields_coercion_within {d : Dataset} {delimiter : UInt8} {desk desk' : Desk}
    {r : Outcome Coercion} :
    ((d.coercion delimiter).within Desk.files Desk.withFiles).Yields desk r desk' ↔
      (d.coercion delimiter).Yields desk.files r desk'.files ∧ desk'.dataset = desk.dataset := by
  refine Iff.trans (Task.yields_within (fun _ _ => ?_) (fun _ _ _ => ?_) fun _ => ?_) ⟨?_, ?_⟩
  · rfl
  · rfl
  · rfl
  · rintro ⟨u, hu, rfl⟩
    exact ⟨hu, rfl⟩
  · rintro ⟨hu, hd⟩
    exact ⟨desk'.files, hu, by rw [withFiles, ← hd]⟩

/-- Coercion in place comes to the dataset that coercion comes to, or leaves the dataset alone. -/
theorem yields_coerce {delimiter : UInt8} {r : Outcome Coercion} {desk desk' : Desk} :
    (coerce delimiter).Yields desk r desk' ↔
      (∃ c, r = .ok c ∧
        (desk.dataset.coerce delimiter).Yields desk.files (.ok (desk'.dataset, c)) desk'.files) ∨
      ∃ fault, r = .error fault ∧
        (desk.dataset.coerce delimiter).Yields desk.files (.error fault) desk'.files ∧
          desk'.dataset = desk.dataset := by
  unfold coerce Dataset.coerce
  rw [Task.bind_eq, Task.yields_read_bind]
  constructor
  · intro h
    rcases Task.yields_bind.1 h with ⟨c, v, hc, h⟩ | ⟨fault, hfault, rfl⟩
    · obtain ⟨hc, hv⟩ := yields_coercion_within.1 hc
      rcases Task.yields_bind.1 h with ⟨_, w, hw, hr, rfl⟩ | ⟨fault, hfault, -⟩
      · obtain ⟨-, rfl⟩ := yields_promote.1 hw
        exact .inl ⟨c, hr.symm, Task.yields_bind_ok.2 ⟨c, v.files, hc, by rw [withSchema, hv], rfl⟩⟩
      · cases (yields_promote.1 hfault).1
    · obtain ⟨hfault, hd⟩ := yields_coercion_within.1 hfault
      exact .inr ⟨fault, rfl, Task.yields_bind_error.2 (.inr hfault), hd⟩
  · rintro (⟨c, rfl, h⟩ | ⟨fault, rfl, h, hd⟩)
    · obtain ⟨c', v, hc, hpair, rfl⟩ := Task.yields_bind_ok.1 h
      rw [Except.ok.injEq, Prod.mk.injEq] at hpair
      obtain ⟨hd, rfl⟩ := hpair
      have hdesk : (⟨desk'.files, desk.dataset⟩ : Desk).withSchema
          (desk.dataset.schema.promote c'.promoted) = desk' := by
        rw [withSchema, hd]
      exact Task.yields_bind_ok.2 ⟨c', ⟨desk'.files, desk.dataset⟩,
        yields_coercion_within.2 ⟨hc, rfl⟩, Task.yields_bind_ok.2
          ⟨(), desk', yields_promote.2 ⟨rfl, hdesk⟩, rfl, rfl⟩⟩
    · rcases Task.yields_bind_error.1 h with ⟨c', v, -, hpair, -⟩ | hfault
      · cases hpair
      · exact Task.yields_bind_error.2 (.inr (yields_coercion_within.2 ⟨hfault, hd⟩))

end Desk

/-! ## What coercion promises -/

/-- One dataset is another in which the first declarations of some columns have become floats. -/
structure Dataset.Retypes (d : Dataset) (names : List String) (d' : Dataset) : Prop where
  path : d'.path = d.path
  key : d'.key = d.key
  delimiter : d'.delimiter = d.delimiter
  ids : d'.schema.ids = d.schema.ids
  features : d'.schema.features = d.schema.features
  labels : d'.schema.labels = d.schema.labels
  /-- There are as many types as before. -/
  check : d'.schema.check = .ok ()
  declared : ∀ i, d'.schema.declarations[i]? = (d.schema.declarations[i]?).map fun c =>
    if c.name ∈ names ∧ c.name ∉ d.schema.names.take i then { c with type := .float64 } else c
  lookup : ∀ name, d'.schema.lookup name = (d.schema.lookup name).map fun c =>
    if name ∈ names then { c with type := .float64 } else c

theorem Dataset.retypes_promote {d : Dataset} (heven : d.schema.Even) (names : List String) :
    d.Retypes names { d with schema := d.schema.promote names } where
  path := rfl
  key := rfl
  delimiter := rfl
  ids := (d.schema.promote_lists names).1
  features := (d.schema.promote_lists names).2.1
  labels := (d.schema.promote_lists names).2.2
  check := Schema.check_of_even (heven.promote names)
  declared := Schema.getElem?_promote heven names
  lookup := Schema.lookup_promote_eq heven names

/-- If coercion in place succeeds, it has promoted the key columns of text that hold nothing but
numbers and blanks, and has read all records if there is such a column; nothing else has changed. If
it fails, at whichever record and for whatever reason, nothing has changed at all. -/
theorem coerce_promotes {files : FileTree} {d : Dataset} {delimiter : UInt8} {r : Outcome Coercion}
    {desk : Desk} (hcheck : d.schema.check = .ok ())
    (h : (Desk.coerce delimiter).Yields ⟨files, d⟩ r desk) :
    desk.files = files ∧
      match r with
      | .ok c =>
        (d.coerce delimiter).Yields files (.ok (desk.dataset, c)) files ∧
          ∃ sheet, files.readSheet d.path delimiter = .ok sheet ∧
            (∀ name, name ∈ c.promoted ↔
              name ∈ d.key ∧ (d.schema.lookup name).map Declaration.type = some .text ∧
                sheet.HoldsNumbers name) ∧
            c.promoted.Sublist d.key ∧
            (c.promoted ≠ [] → c.rowsScanned = sheet.records.length) ∧
            d.Retypes c.promoted desk.dataset
      | .error fault =>
        (d.coerce delimiter).Yields files (.error fault) files ∧ desk.dataset = d := by
  rcases Desk.yields_coerce.1 h with ⟨c, rfl, hcoerce⟩ | ⟨fault, rfl, hcoerce, hd⟩
  · obtain ⟨c', v, hc, hpair, rfl⟩ := Task.yields_bind_ok.1 hcoerce
    rw [Except.ok.injEq, Prod.mk.injEq] at hpair
    obtain ⟨hd, rfl⟩ := hpair
    obtain ⟨rfl, hscan⟩ := yields_coercion hc
    obtain ⟨sheet, types, places, hscanned, hcomplete⟩ := hscan c' rfl
    refine ⟨rfl, hcoerce, sheet, hscanned.read, fun name => ?_, hscanned.sublist_key,
      fun hne => (hcomplete hne).1, ?_⟩
    · exact hscanned.mem_promoted_iff fun hne => (hcomplete hne).2
    · rw [← hd]
      exact Dataset.retypes_promote (Schema.even_of_check hcheck) c'.promoted
  · have hfiles : files = desk.files := by
      rcases Task.yields_bind_error.1 hcoerce with ⟨c', v, -, hpair, -⟩ | hfault
      · cases hpair
      · exact (yields_coercion hfault).1
    rw [← hfiles] at hcoerce
    exact ⟨hfiles.symm, hcoerce, hd⟩

/-- An input with two key columns of text, of which one holds numbers. -/
def notedData : Dataset where
  path := "input.csv"
  schema := ⟨["id", "code"], ["note"], [], [.text, .text], [.text], []⟩
  key := ["id", "code"]
  delimiter := none

def notedFiles : FileTree :=
  FileTree.empty.put [.given "input.csv"]
    (.file (Utf8.encode "id,code,note\n1,a1,7\n2.5,b2,8\n,c3,9\n"))

/-- The column of numbers is promoted unless the flag is raised, and no other column is. -/
theorem coerce_promotes_noted :
    notedData.schema.check = .ok () ∧
      (∃ desk, (Desk.coerce Delimiter.comma).Yields ⟨notedFiles, notedData⟩ (.ok ⟨["id"], 3⟩) desk ∧
        desk.dataset.schema.lookup "id" = some ⟨"id", .float64, .id⟩ ∧
        desk.dataset.schema.lookup "code" = some ⟨"code", .text, .id⟩ ∧
        desk.dataset.schema.lookup "note" = some ⟨"note", .text, .feature⟩) ∧
      ∃ desk, (Desk.coerce Delimiter.comma).Yields ⟨notedFiles, notedData⟩
        (.error .cancelled) desk ∧ desk.dataset = notedData := by
  have hrun : ∀ (raised : Bool) (r : Outcome Coercion),
      ((Desk.coerce Delimiter.comma).alone raised ⟨notedFiles, notedData⟩).map Prod.fst = some r →
        ∃ desk, (Desk.coerce Delimiter.comma).Yields ⟨notedFiles, notedData⟩ r desk := by
    intro raised r h
    obtain ⟨⟨_, desk⟩, halone, rfl⟩ := Option.map_eq_some_iff.1 h
    exact ⟨desk, .of_alone halone⟩
  have hcheck : notedData.schema.check = .ok () := by decide
  obtain ⟨desk, h⟩ := hrun false (.ok ⟨["id"], 3⟩) (by decide +kernel)
  obtain ⟨-, -, sheet, -, -, -, -, hretypes⟩ := coerce_promotes hcheck h
  obtain ⟨desk', h'⟩ := hrun true (.error .cancelled) (by decide +kernel)
  obtain ⟨-, -, hd⟩ := coerce_promotes hcheck h'
  exact ⟨hcheck, ⟨desk, h, hretypes.lookup "id", hretypes.lookup "code", hretypes.lookup "note"⟩,
    desk', h', hd⟩

end Equijoin
