import Equijoin.Proofs.Runs.Sequel

/-! # The files of an output

Parts become one staged file, the descriptor another, and each takes its place in one step.

* `Part.Stores`: a part and its file hold a joined table.
* `outputText`: the text of tables under one header.
* `assembleParts_eq_ok`: parts that hold tables with the same columns become the text of the tables.
* `commit_cases`: a staged file takes its place, or it is gone.
* `publishOutput_cases`: both files take their places, or the first alone, or none.
-/

set_option autoImplicit false

namespace Equijoin

open FileTree

variable {t u : FileTree}

/-! ## Assembly -/

/-- The lines of the rows of a table. -/
def Table.lines (table : Table) : Bytes :=
  table.cells.flatMap (Csv.writeLine Delimiter.comma)

/-- The text of tables under one header. -/
def outputText (columns : List String) (tables : List Table) : Bytes :=
  Csv.writeLine Delimiter.comma columns ++ tables.flatMap Table.lines

/-- A part and its file hold a joined table. -/
structure Part.Stores (files : FileTree) (part : Part) (table : Table) : Prop where
  columns : part.columns = table.columns
  rows : part.rows = table.rows.length
  reads : ∃ text, table.Text text ∧ files.read part.path = .ok text

theorem text_eq_lines {table : Table} {text : Bytes} (h : table.Text text) :
    text = table.lines := by
  unfold Table.Text Csv.writeLines at h
  unfold Table.lines
  split at h
  · rename_i hnil
    rw [hnil]
    exact (Except.ok.inj h).symm
  · rename_i first rest hcells
    split at h
    · cases h
    · exact (Except.ok.inj h).symm

theorem partTexts_eq_ok {parts : List Part} {tables : List Table} (columns : List String)
    (h : List.Forall₂ (Part.Stores t) parts tables) {text : Bytes} :
    partTexts t columns parts = .ok text ↔
      (∀ table ∈ tables, table.columns = columns) ∧ text = tables.flatMap Table.lines := by
  induction h generalizing text with
  | nil => simp [partTexts, eq_comm]
  | @cons part table parts tables hpart _ ih =>
    obtain ⟨lines, htext, hread⟩ := hpart.reads
    obtain rfl := text_eq_lines htext
    have hstep : part.columns = columns → partTexts t columns (part :: parts) =
        partTexts t columns parts >>= fun rest => .ok (table.lines ++ rest) := by
      intro hcolumns
      rw [partTexts, if_neg (by simpa using hcolumns), hread]
      by_cases hrows : part.rows = 0
      · -- a part without rows is not read
        have hnone : table.rows = [] := by
          rw [hpart.rows] at hrows
          exact List.length_eq_zero_iff.1 hrows
        have hlines : table.lines = [] := by
          rw [Table.lines, Table.cells, hnone]
          rfl
        rw [if_pos hrows, hlines]
        rfl
      · rw [if_neg hrows]
        rfl
    rw [List.forall_mem_cons, ← hpart.columns, List.flatMap_cons]
    by_cases hcolumns : part.columns = columns
    · rw [hstep hcolumns, bind_eq_ok]
      simp only [ih, Except.ok.injEq]
      constructor
      · rintro ⟨rest, ⟨hall, rfl⟩, rfl⟩
        exact ⟨⟨hcolumns, hall⟩, rfl⟩
      · rintro ⟨⟨-, hall⟩, rfl⟩
        exact ⟨_, ⟨hall, rfl⟩, rfl⟩
    · rw [partTexts, if_pos (by simpa using hcolumns)]
      refine ⟨fun h => ?_, fun h => absurd h.1.1 hcolumns⟩
      cases h

/-- The number of rows of tables. -/
def rowsOf (tables : List Table) : Nat := (tables.flatMap Table.rows).length

theorem totalRows_eq {parts : List Part} {tables : List Table}
    (h : List.Forall₂ (Part.Stores t) parts tables) : totalRows parts = rowsOf tables := by
  induction h with
  | nil => rfl
  | cons hpart _ ih =>
    rw [totalRows, hpart.rows, ih, rowsOf, rowsOf, List.flatMap_cons, List.length_append]

/-- Parts that come in the order of their indices stay in their order. -/
theorem mergeSort_parts {parts : List Part} (h : (parts.map Part.index).Pairwise (· ≤ ·)) :
    parts.mergeSort (fun p q => p.index.ble q.index) = parts := by
  refine List.mergeSort_of_pairwise ((List.pairwise_map.1 h).imp fun {p q} hpq => ?_)
  rw [Nat.ble_eq]
  exact hpq

/-- Parts that hold tables with the same columns become the text of the tables. -/
theorem assembleParts_eq_ok {parts : List Part} {tables : List Table} {path : String}
    (hindex : (parts.map Part.index).Pairwise (· ≤ ·))
    (h : List.Forall₂ (Part.Stores t) parts tables) {a : Assembled} :
    assembleParts parts path t = (.ok a, u) ↔
      t.stagingPlace path = .ok a.staged ∧ tables ≠ [] ∧
        (∀ table ∈ tables, table.columns = a.columns) ∧ a.rows = rowsOf tables ∧
        u = t.put a.staged (.file (outputText a.columns tables)) := by
  have hassemble : assembleParts parts path t = (.ok a, u) ↔
      assemble parts path t = .ok (a, u) := by
    unfold assembleParts
    cases assemble parts path t with
    | ok x => simp [Prod.ext_iff]
    | error fault => simp
  rw [hassemble, assemble, mergeSort_parts hindex]
  cases h with
  | nil => simp
  | @cons part table parts tables hpart hrest =>
    have hall := List.Forall₂.cons hpart hrest
    simp only [bind_eq_ok, mapError_eq_ok, assembledText, partTexts_eq_ok _ hall,
      totalRows_eq hall, Except.ok.injEq, Prod.mk.injEq]
    constructor
    · rintro ⟨staged, hstaged, text, ⟨rest, ⟨hcolumns, rfl⟩, rfl⟩, rfl, rfl⟩
      exact ⟨hstaged, by simp, hcolumns, rfl, rfl⟩
    · rintro ⟨hstaged, -, hcolumns, hrows, rfl⟩
      have hfirst : part.columns = a.columns := hpart.columns.trans (hcolumns table (by simp))
      rw [hfirst]
      exact ⟨a.staged, hstaged, _, ⟨_, ⟨hcolumns, rfl⟩, rfl⟩, by rw [← hrows], rfl⟩

theorem assembleParts_error {parts : List Part} {path : String} {fault : Fault}
    (h : assembleParts parts path t = (.error fault, u)) : u = t := by
  unfold assembleParts at h
  cases ha : assemble parts path t with
  | ok x =>
    rw [ha] at h
    cases h
  | error fault' =>
    rw [ha] at h
    cases h
    rfl

/-! ## Staged files -/

/-- A location that no path leads to, and where nothing stands. -/
structure New (t : FileTree) (l : Location) : Prop where
  not_spelled : ¬ l.Spelled
  absent : t.nodeAt? l = none

theorem new_stagingPlace {path : String} {l : Location} (h : t.stagingPlace path = .ok l) :
    New t l := by
  obtain ⟨k, -, rfl⟩ := freshPlace_eq_ok.1 h
  exact ⟨fun hs => hs t.nextSerial (by simp), nodeAt?_fresh t (by simp)⟩

/-- The second tree has one file more, at a new location. -/
structure Stages (t u : FileTree) (l : Location) (c : Bytes) : Prop extends New t l where
  node : u.nodeAt? l = some (.file c)
  others : AgreeOn (· ≠ l) t u

theorem New.stages {l : Location} (h : New t l) (c : Bytes) : Stages t (t.put l (.file c)) l c :=
  ⟨h, by rw [nodeAt?_put, if_pos rfl], agreeOn_put _ fun h => h rfl⟩

namespace Stages

variable {l k : Location} {c : Bytes} {v : FileTree}

theorem congr (h : Stages t u l c) (hv : Same u v) : Stages t v l c :=
  ⟨h.toNew, by rw [← hv.2 l trivial, h.node], h.others.trans (hv.mono fun _ _ => trivial)⟩

theorem put (h : Stages t u l c) (hne : k ≠ l) (n : Node) :
    Stages (t.put k n) (u.put k n) l c where
  not_spelled := h.not_spelled
  absent := by rw [nodeAt?_put, if_neg hne.symm, h.absent]
  node := by rw [nodeAt?_put, if_neg hne.symm, h.node]
  others := h.others.put k n

theorem agrees (h : Stages t u l c) : AgreeOn Location.Spelled t u :=
  h.others.mono fun _ hk hl => h.not_spelled (hl ▸ hk)

theorem stagingPlace (h : Stages t u l c) (path : String) :
    (∃ k, u.stagingPlace path = .ok k) ↔ ∃ k, t.stagingPlace path = .ok k :=
  ⟨fun ⟨_, hk⟩ => h.agrees.symm.keeps.freshPlace h.others.1.symm hk,
    fun ⟨_, hk⟩ => h.agrees.keeps.freshPlace h.others.1 hk⟩

theorem new (h : Stages t u l c) (hk : New u k) : k ≠ l ∧ New t k := by
  have hne : k ≠ l := by
    rintro rfl
    have hnone := hk.absent
    rw [h.node] at hnone
    cases hnone
  exact ⟨hne, hk.not_spelled, by rw [h.others.2 k hne, hk.absent]⟩

theorem unstage (h : Stages t u l c) : Same t (u.unstage l) := by
  refine ⟨h.others.1, fun k _ => ?_⟩
  rw [FileTree.unstage, nodeAt?_erase]
  split
  · rename_i hk
    rw [hk, h.absent]
  · rename_i hk
    exact h.others.2 k hk

/-- A staged file takes its place, or it is gone. -/
theorem commit_cases (h : Stages t u l c) (path : String) :
    (∃ k v, t.destination path = .ok k ∧ commit l path u = (.ok (), v) ∧
      Same (t.put k (.file c)) v) ∨
    ∃ fault v, (∀ k, t.destination path ≠ .ok k) ∧ commit l path u = (.error fault, v) ∧
      Same t v := by
  have hnode : u.node? l = some (.file c) := by
    rw [node?_eq, if_neg, h.node]
    intro hall
    refine h.not_spelled fun serial hs => ?_
    simpa using List.all_eq_true.1 hall _ hs
  unfold commit publish
  rw [← h.agrees.destination]
  cases hk : t.destination path with
  | error fault => exact .inr ⟨_, _, fun _ h => (nomatch h), rfl, h.unstage⟩
  | ok k =>
    rw [ok_bind, hnode]
    exact .inl ⟨k, _, rfl, rfl, h.unstage.put k _⟩

end Stages

/-! ## Publication -/

/-- The first file of an output can take its place, and the second can be staged. -/
structure Publishable (t : FileTree) (output : Output) (data : Location) : Prop where
  place : t.destination output.dataPath = .ok data
  staged : ∃ l, t.stagingPlace output.schemaPath = .ok l

theorem destination_put_data {path path' : String} {k : Location} (c : Bytes)
    (h : t.destination path = .ok k) (l : Location) :
    (t.put k (.file c)).destination path' = .ok l ↔ t.destination path' = .ok l := by
  have hfile := node?_destination h
  exact ⟨(put_file_keeps c hfile).destination (keeps_put_file c hfile),
    (keeps_put_file c hfile).destination (put_file_keeps c hfile)⟩

/-- The files of an output take their places in one of three ways: none of them does, the first
does and the second cannot, or both do. -/
theorem publishOutput_cases {merged : Schema} (output : Output) {a : Assembled} {d : Descriptor}
    {c : Bytes} (hstages : Stages t u a.staged c) (hd : merged.reconcile a.columns = .ok d) :
    (∃ fault v, publishOutput merged output a u = (.error fault, v) ∧
      (∀ data, ¬ Publishable t output data) ∧ Same t v) ∨
    (∃ fault v data, publishOutput merged output a u = (.error fault, v) ∧
      Publishable t output data ∧ (∀ l, t.destination output.schemaPath ≠ .ok l) ∧
      Same (t.put data (.file c)) v) ∨
    ∃ v data schema, publishOutput merged output a u = (.ok d, v) ∧
      Publishable t output data ∧ t.destination output.schemaPath = .ok schema ∧
      Same ((t.put data (.file c)).put schema (.file (Utf8.encode d.write))) v := by
  unfold publishOutput stageDescriptor stage
  rw [hd]
  dsimp only
  cases hstage : u.stagingPlace output.schemaPath with
  | error fault =>
    refine .inl ⟨.io fault, u.unstage a.staged, rfl, fun data h => ?_, hstages.unstage⟩
    obtain ⟨k, hk⟩ := (hstages.stagingPlace _).2 h.staged
    rw [hstage] at hk
    cases hk
  | ok staged =>
    have hstaged := (hstages.stagingPlace _).1 ⟨staged, hstage⟩
    obtain ⟨hne, hnew⟩ := hstages.new (new_stagingPlace hstage)
    have hsecond := hnew.stages (Utf8.encode d.write)
    have hspelled : ∀ {path : String} {k : Location}, t.destination path = .ok k → k ≠ staged :=
      fun hk h => hnew.not_spelled (h ▸ spelled_destination hk)
    simp only [ok_bind, Except.mapError]
    -- the output is moved while its descriptor is staged
    rcases (hstages.put hne _).commit_cases output.dataPath with
      ⟨data, v, hdata, hcommit, hv⟩ | ⟨fault, v, hdata, hcommit, hv⟩
    · rw [hcommit]
      rw [← hsecond.agrees.destination] at hdata
      dsimp only
      rcases ((hsecond.put (hspelled hdata) (.file c)).congr hv).commit_cases output.schemaPath with
        ⟨schema, w, hschema, hcommit, hw⟩ | ⟨fault, w, hschema, hcommit, hw⟩
      · rw [hcommit]
        exact .inr (.inr ⟨w, data, schema, rfl, ⟨hdata, hstaged⟩,
          (destination_put_data c hdata schema).1 hschema, hw⟩)
      · rw [hcommit]
        exact .inr (.inl ⟨fault, w, data, rfl, ⟨hdata, hstaged⟩,
          fun l hl => hschema l ((destination_put_data c hdata l).2 hl), hw⟩)
    · rw [hcommit]
      refine .inl ⟨fault, v.unstage staged, rfl, fun data h => ?_, (hsecond.congr hv).unstage⟩
      refine hdata data ?_
      rw [← hsecond.agrees.destination]
      exact h.place

end Equijoin
