import Equijoin.Proofs.Stages.FanOut
import Equijoin.Proofs.Tables.Loading

/-! # Datasets are prepared

* `Dataset.Opened`, `ensures_opened`: the file of a dataset, as coercion and sharding read it.
* `Dataset.Scanned`: what the coercion of a dataset promotes.
* `prepare_ensures`: preparing a dataset changes no file. If it succeeds, the dataset has been
  scanned, and nothing but its delimiter and its schema is new.
* `orderly_coercion`: the tasks of the stage.
-/

set_option autoImplicit false

namespace Equijoin

open FileTree

variable {owns : Nat → Location → Prop} {i : Nat} {t : FileTree}

/-! ## Scans -/

/-- The candidate survives all records that can be read. -/
def Candidate.survivesAll (records : List (Except Csv.Fault (List String))) (c : Candidate) : Bool :=
  records.all fun
    | .ok cells => c.survives cells
    | .error _ => true

theorem scanRecords_ensures (rows : Nat) (cs : List Candidate)
    (records : List (Except Csv.Fault (List String))) :
    (Region owns i).Ensures (scanRecords rows cs records) t fun r u =>
      u = t ∧ ∀ c, r = .ok c →
        c.promoted = (cs.filter (Candidate.survivesAll records)).map Candidate.name := by
  induction records generalizing rows cs with
  | nil =>
    rw [scanRecords]
    refine Footing.ensures_ok ⟨rfl, fun c hc => ?_⟩
    cases hc
    have hall : cs.filter (Candidate.survivesAll []) = cs :=
      List.filter_eq_self.2 fun c _ => rfl
    rw [hall]
  | cons record records ih =>
    cases cs with
    | nil =>
      rw [scanRecords]
      refine Footing.ensures_ok ⟨rfl, fun c hc => ?_⟩
      cases hc
      rfl
    | cons c cs =>
      cases record with
      | error fault =>
        rw [scanRecords]
        exact Footing.ensures_done (by simp) ⟨rfl, fun c hc => nomatch hc⟩
      | ok cells =>
        rw [scanRecords]
        refine Footing.ensures_check_bind ((ih _ _).mono fun r u h => ⟨h.1, fun a ha => ?_⟩)
        rw [h.2 a ha, List.filter_filter]
        congr 1
        refine List.filter_congr fun c' _ => ?_
        rw [Candidate.survivesAll, Candidate.survivesAll, List.all_cons, Bool.and_comm]

theorem untied_scanRecords {free : FileTree → Nat} (rows : Nat) (cs : List Candidate)
    (records : List (Except Csv.Fault (List String))) :
    (scanRecords (σ := FileTree) rows cs records).Untied free := by
  induction records generalizing rows cs with
  | nil =>
    rw [scanRecords]
    exact trivial
  | cons record records ih =>
    cases cs with
    | nil =>
      rw [scanRecords]
      exact trivial
    | cons c cs =>
      cases record with
      | error fault =>
        rw [scanRecords]
        exact trivial
      | ok cells =>
        rw [scanRecords]
        exact Task.untied_check.bind fun _ => ih _ _

/-! ## Datasets -/

/-- The file of a dataset is read as a sheet, on which its schema and its key are resolved. -/
structure Dataset.Opened (files : FileTree) (d : Dataset) (delimiter : UInt8) (sheet : Csv.Sheet)
    (types : List ColumnType) (places : List Nat) : Prop where
  read : files.readSheet d.path delimiter = .ok sheet
  resolves : d.schema.resolve sheet.header = .ok types
  placed : positions sheet.header d.key = .ok places

theorem Dataset.Opened.congr {u : FileTree} {d : Dataset} {delimiter : UInt8} {sheet : Csv.Sheet}
    {types : List ColumnType} {places : List Nat} (h : d.Opened t delimiter sheet types places)
    (hu : AgreeOn Location.Spelled t u) : d.Opened u delimiter sheet types places where
  read := by
    rw [← hu.readSheet (p := d.path) fun _ hl => hl]
    exact h.read
  resolves := h.resolves
  placed := h.placed

/-- What a task does with a dataset that it opens first. -/
theorem ensures_opened {α : Type} (howns : ∀ j l, owns j l → ¬ l.Spelled) {d : Dataset}
    {delimiter : UInt8} {f : Csv.Sheet → List ColumnType → List Nat → Task FileTree α}
    {post : Outcome α → FileTree → Prop}
    (hok : ∀ sheet types places, d.Opened t delimiter sheet types places →
      (Region owns i).Ensures (f sheet types places) t post)
    (herror : ∀ fault, (∀ sheet types places, ¬ d.Opened t delimiter sheet types places) →
      post (.error fault) t) :
    (Region owns i).Ensures (do
      let files ← Task.read
      let sheet ← Task.ofOutcome (files.readSheet d.path delimiter)
      let types ← Task.ofOutcome (d.schema.resolveSheet sheet)
      let places ← Task.ofOutcome ((positions sheet.header d.key).mapError Fault.schema)
      f sheet types places) t post := by
  have hseen : FilePath.Seen (Unowned owns i) d.path := fun l hl j _ hj => howns j l hj hl
  refine ensures_read (fun u hu => by rw [hu.readSheet hseen]) ?_
  refine Footing.ensures_done_bind (readSheet_ne_error (by simp) _ _ _) (fun sheet hsheet => ?_)
    fun fault hfault => herror fault fun sheet types places h => ?_
  · refine Footing.ensures_done_bind (resolveSheet_ne_cancelled _ _) (fun types htypes => ?_)
      fun fault hfault => herror fault fun sheet' types places h => ?_
    · refine Footing.ensures_done_bind (mapError_ne_error (by simp) _) (fun places hplaces => ?_)
        fun fault hfault => herror fault fun sheet' types places h => ?_
      · exact hok sheet types places ⟨hsheet, mapError_eq_ok.1 htypes, mapError_eq_ok.1 hplaces⟩
      · cases hsheet.symm.trans h.read
        rw [h.placed] at hfault
        cases hfault
    · cases hsheet.symm.trans h.read
      rw [Schema.resolveSheet, h.resolves] at hfault
      cases hfault
  · rw [h.read] at hfault
    cases hfault

/-- The columns that are promoted are those candidates that survive all records. -/
structure Dataset.Scanned (files : FileTree) (d : Dataset) (delimiter : UInt8) (sheet : Csv.Sheet)
    (types : List ColumnType) (places : List Nat) (promoted : List String) : Prop
    extends d.Opened files delimiter sheet types places where
  promotes : promoted = ((candidates types places d.key).filter
    (Candidate.survivesAll sheet.records)).map Candidate.name

theorem coercion_ensures (howns : ∀ j l, owns j l → ¬ l.Spelled) (d : Dataset)
    (delimiter : UInt8) :
    (Region owns i).Ensures (d.coercion delimiter) t fun r u =>
      u = t ∧ ∀ c, r = .ok c →
        ∃ sheet types places, d.Scanned t delimiter sheet types places c.promoted := by
  unfold Dataset.coercion
  refine ensures_opened howns (fun sheet types places hopen => ?_)
    fun fault _ => ⟨rfl, fun c hc => nomatch hc⟩
  exact (scanRecords_ensures _ _ _).mono fun r u h =>
    ⟨h.1, fun c hc => ⟨sheet, types, places, hopen, h.2 c hc⟩⟩

/-- A delimiter is the one of the dataset, or one that can be found out. -/
def Dataset.MayUse (d : Dataset) (delimiter : UInt8) : Prop :=
  d.delimiter = some delimiter ∨ d.delimiter = none ∧ delimiter ∈ Delimiter.candidates

theorem detected_mem {files : FileTree} {path : String} {b : UInt8}
    (h : Delimiter.sniff files path = .ok (some b)) : b ∈ Delimiter.candidates := by
  obtain ⟨text, -, htext⟩ := bind_eq_ok.1 (mapError_eq_ok.1 h)
  unfold Delimiter.detectIn at htext
  dsimp only at htext
  split at htext
  · exact List.mem_of_find?_eq_some (Except.ok.inj htext)
  · cases htext

theorem findDelimiter_ensures (howns : ∀ j l, owns j l → ¬ l.Spelled) (d : Dataset) :
    (Region owns i).Ensures d.findDelimiter t fun r u =>
      u = t ∧ ∀ delimiter, r = .ok delimiter → d.MayUse delimiter := by
  have hseen : FilePath.Seen (Unowned owns i) d.path := fun l hl j _ hj => howns j l hj hl
  unfold Dataset.findDelimiter
  split
  · rename_i delimiter hd
    refine Footing.ensures_ok ⟨rfl, fun b hb => ?_⟩
    cases hb
    exact .inl hd
  · rename_i hd
    refine ensures_read (fun u hu => ?_) ?_
    · rw [hu.sniff hseen]
    · refine Footing.ensures_done_bind (mapError_ne_error (by simp) _) (fun found hfound => ?_)
        fun fault _ => ⟨rfl, fun c hc => nomatch hc⟩
      refine Footing.ensures_ok ⟨rfl, fun b hb => .inr ⟨hd, ?_⟩⟩
      cases hb
      cases found with
      | none => decide
      | some b => exact detected_mem hfound

/-- What preparing a dataset comes to. -/
structure Dataset.Prepared (files : FileTree) (d d' : Dataset) (c : Coercion) (delimiter : UInt8)
    (sheet : Csv.Sheet) (types : List ColumnType) (places : List Nat) : Prop where
  mayUse : d.MayUse delimiter
  result : d' = { d with delimiter := some delimiter, schema := d.schema.promote c.promoted }
  scanned : d.Scanned files delimiter sheet types places c.promoted

theorem Dataset.Prepared.congr {u : FileTree} {d d' : Dataset} {c : Coercion} {delimiter : UInt8}
    {sheet : Csv.Sheet} {types : List ColumnType} {places : List Nat}
    (h : d.Prepared t d' c delimiter sheet types places) (hu : Same t u) :
    d.Prepared u d' c delimiter sheet types places where
  mayUse := h.mayUse
  result := h.result
  scanned := ⟨h.scanned.toOpened.congr (hu.mono fun _ _ => trivial), h.scanned.promotes⟩

/-- Preparing a dataset changes no file. -/
theorem prepare_ensures (howns : ∀ j l, owns j l → ¬ l.Spelled) (d : Dataset) :
    (Region owns i).Ensures d.prepare t fun r u =>
      u = t ∧ ∀ d' c, r = .ok (d', c) →
        ∃ delimiter sheet types places, d.Prepared t d' c delimiter sheet types places := by
  unfold Dataset.prepare
  refine Footing.Ensures.bind ((findDelimiter_ensures howns d).mono fun r u h => ?_)
  cases r with
  | error fault => exact ⟨h.1, fun _ _ hc => nomatch hc⟩
  | ok delimiter =>
    obtain ⟨rfl, hdelimiter⟩ := h
    unfold Dataset.coerce
    refine Footing.Ensures.bind ((coercion_ensures howns _ _).mono fun r u h => ?_)
    cases r with
    | error fault => exact ⟨h.1, fun _ _ hc => nomatch hc⟩
    | ok c =>
      obtain ⟨rfl, hc⟩ := h
      refine Footing.ensures_ok ⟨rfl, fun d' c' hr => ?_⟩
      cases hr
      obtain ⟨sheet, types, places, hscanned⟩ := hc c rfl
      exact ⟨delimiter, sheet, types, places, hdelimiter delimiter rfl, rfl,
        ⟨hscanned.read, hscanned.resolves, hscanned.placed⟩, hscanned.promotes⟩

theorem untied_prepare {free : FileTree → Nat} (d : Dataset) : d.prepare.Untied free := by
  refine Task.Untied.bind ?_ fun delimiter => ?_
  · unfold Dataset.findDelimiter
    split
    · exact trivial
    · exact Task.untied_read.bind fun files => (Task.untied_done _).bind fun found => trivial
  · refine Task.Untied.bind ?_ fun c => trivial
    refine Task.untied_read.bind fun files => ?_
    exact (Task.untied_done _).bind fun sheet => (Task.untied_done _).bind fun types =>
      (Task.untied_done _).bind fun places => untied_scanRecords _ _ _

/-! ## The stage -/

/-- The tasks that prepare datasets. -/
def coercionTasks (datasets : List Dataset) : List (Task Session (Dataset × Coercion)) :=
  datasets.map fun d => d.prepare.onFiles

theorem getElem?_coercionTasks {datasets : List Dataset} {task : Task Session (Dataset × Coercion)}
    (h : (coercionTasks datasets)[i]? = some task) :
    ∃ d, datasets[i]? = some d ∧ task = d.prepare.onFiles := by
  simp only [coercionTasks, List.getElem?_map, Option.map_eq_some_iff] at h
  obtain ⟨d, hd, rfl⟩ := h
  exact ⟨d, hd, rfl⟩

/-- Preparing the dataset alone yields it with its delimiter and its schema after coercion. -/
def Dataset.PreparesTo (files : FileTree) (d : Dataset) (value : Dataset × Coercion) : Prop :=
  (d.prepare.alone false files).map Prod.fst = some (.ok value)

theorem Dataset.PreparesTo.prepared {d : Dataset} {value : Dataset × Coercion}
    (h : d.PreparesTo t value) : ∃ delimiter sheet types places,
      d.Prepared t value.1 value.2 delimiter sheet types places := by
  obtain ⟨r, u, halone, -, -, hprepared⟩ :=
    (prepare_ensures (i := 0) (t := t) (fun _ _ (h : False) => h.elim) d).alone
  unfold Dataset.PreparesTo at h
  rw [halone] at h
  cases h
  exact hprepared _ _ rfl

/-- What a task of the stage comes to: what it comes to alone, and it changes no file. -/
def CoercedAs (datasets : List Dataset) (o : Session) (i : Nat) (r : Outcome (Dataset × Coercion))
    (v : Session) : Prop :=
  v.files = o.files ∧ ∀ d, datasets[i]? = some d → d.prepare.alone false o.files = some (r, o.files)

theorem orderly_coercion (datasets : List Dataset) (o : Session) :
    Orderly (fun _ _ => False) (fun _ => 1) (coercionTasks datasets) o (CoercedAs datasets o) where
  unique _ _ _ h := h.elim
  ensures i task htask := by
    obtain ⟨d, hd, rfl⟩ := getElem?_coercionTasks htask
    refine ensures_onFiles ((prepare_ensures (fun _ _ h => h.elim) d).and_alone.mono
      fun r u h => ?_)
    obtain ⟨halone, rfl, -⟩ := h
    refine ⟨rfl, fun d' hd' => ?_⟩
    cases hd.symm.trans hd'
    exact halone
  balanced task htask := by
    obtain ⟨d, -, rfl⟩ := List.mem_map.1 htask
    exact (untied_onFiles (untied_prepare d) fun _ _ => rfl).balanced

theorem coercion_values {schedule : Schedule} {datasets : List Dataset} {o v : Session}
    {values : List (Dataset × Coercion)}
    (h : fanOut schedule (coercionTasks datasets) o = (.ok values, v)) :
    List.Forall₂ (Dataset.PreparesTo o.files) datasets values := by
  have hstage := (fanOut_orderly (orderly_coercion datasets o) (AgreeOn.refl _ _) Nat.one_pos
    schedule).2
  rw [h] at hstage
  rcases hstage with ⟨values, hok, hlength, hvalues⟩ | ⟨i, task, fault, u, -, herror, -⟩
  · cases hok
    refine forall₂_of_getElem? (by rw [hlength, coercionTasks, List.length_map])
      fun i d value hd hvalue => ?_
    obtain ⟨task, u, -, -, ⟨-, halone⟩, -⟩ := hvalues i value hvalue
    unfold Dataset.PreparesTo
    rw [halone d hd]
    rfl
  · cases herror

theorem coercion_succeeds {datasets : List Dataset} {o : Session}
    {values : List (Dataset × Coercion)}
    (h : List.Forall₂ (Dataset.PreparesTo o.files) datasets values) (schedule : Schedule) :
    ∃ v, fanOut schedule (coercionTasks datasets) o = (.ok values, v) := by
  rcases hx : fanOut schedule (coercionTasks datasets) o with ⟨r, v⟩
  have hstage := (fanOut_orderly (orderly_coercion datasets o) (AgreeOn.refl _ _) Nat.one_pos
    schedule).2
  rw [hx] at hstage
  rcases hstage with ⟨values', hok, -⟩ | ⟨i, task, fault, u, htask, herror, -, -, -, halone⟩
  · obtain rfl : r = .ok values' := hok
    have hsame : values' = values := by
      refine List.ext_getElem? fun i => ?_
      have hvalues := coercion_values hx
      cases hd : datasets[i]? with
      | none =>
        have hi := List.getElem?_eq_none_iff.1 hd
        rw [List.getElem?_eq_none (hvalues.length_eq ▸ hi), List.getElem?_eq_none (h.length_eq ▸ hi)]
      | some d =>
        obtain ⟨a, ha, halone⟩ := getElem?_of_forall₂ hvalues hd
        obtain ⟨b, hb, halone'⟩ := getElem?_of_forall₂ h hd
        cases halone.symm.trans halone'
        rw [ha, hb]
    exact ⟨v, by rw [hsame]⟩
  · obtain ⟨d, hd, -⟩ := getElem?_coercionTasks htask
    obtain ⟨value, -, halone'⟩ := getElem?_of_forall₂ h hd
    unfold Dataset.PreparesTo at halone'
    rw [halone d hd] at halone'
    cases halone'

end Equijoin
