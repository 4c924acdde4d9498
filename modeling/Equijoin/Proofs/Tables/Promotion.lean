import Equijoin.Proofs.Tables.Merging
import Equijoin.Proofs.Tables.TextKeys

/-! # Promoted schemas

Promotion makes a float of the first declaration of a column that was declared as text. Schemas that
could be merged before need not be mergeable afterwards, and a file that could be loaded before need
not be loadable.

* `Schema.typesFor`: the types of all declarations of a name.
* `Schema.typesFor_promote`: promotion replaces the first of them.
* `Schema.accepts_promote_iff`: promoted schemas are in conflict unless the same of their common
  columns are promoted in both.
* `Table.load_promote_iff`: a file can be loaded after promotion if its promoted columns hold
  nothing but numbers and blanks.
-/

set_option autoImplicit false

namespace Equijoin

namespace Schema

variable {s t : Schema} {name other : String} {ns ms : List String} {type : ColumnType}

/-! ## The types of a name -/

/-- The types that a group gives a name. -/
def typesIn (ns : List String) (types : List ColumnType) (name : String) : List ColumnType :=
  ((ns.zip types).filter fun p => p.1 == name).map Prod.snd

/-- The types of all declarations of a name. -/
def typesFor (s : Schema) (name : String) : List ColumnType :=
  typesIn s.ids s.idTypes name ++ typesIn s.features s.featureTypes name ++
    typesIn s.labels s.labelTypes name

theorem typesFor_eq (s : Schema) (name : String) : s.typesFor name =
    (s.declarations.filter fun d => d.name == name).map Declaration.type := by
  have hgroup : ∀ (group : ColumnGroup) (ns : List String) (types : List ColumnType),
      ((declare group ns types).filter fun d => d.name == name).map Declaration.type =
        typesIn ns types name := by
    intro group ns types
    rw [declare, List.filter_map, List.map_map]
    rfl
  rw [declarations, List.filter_append, List.filter_append, List.map_append, List.map_append,
    hgroup, hgroup, hgroup]
  rfl

theorem mem_typesFor {d : Declaration} (h : d ∈ s.declarations) :
    d.type ∈ s.typesFor d.name := by
  rw [typesFor_eq]
  exact List.mem_map_of_mem (List.mem_filter.2 ⟨h, by simp⟩)

theorem exists_of_mem_typesFor (h : type ∈ s.typesFor name) :
    ∃ d ∈ s.declarations, d.name = name ∧ d.type = type := by
  rw [typesFor_eq] at h
  obtain ⟨d, hd, rfl⟩ := List.mem_map.1 h
  obtain ⟨hmem, hname⟩ := List.mem_filter.1 hd
  exact ⟨d, hmem, beq_iff_eq.1 hname, rfl⟩

theorem length_typesFor (s : Schema) (name : String) :
    (s.typesFor name).length = s.names.count name := by
  rw [typesFor_eq, List.length_map, names, List.count_eq_countP, List.countP_map,
    List.countP_eq_length_filter]
  rfl

theorem head?_typesFor (s : Schema) (name : String) :
    (s.typesFor name).head? = (s.lookup name).map Declaration.type := by
  rw [typesFor_eq, List.head?_map, List.head?_filter, lookup]

theorem typesFor_ne_nil : s.typesFor name ≠ [] ↔ name ∈ s.names := by
  rw [← List.length_pos_iff, length_typesFor, List.count_pos_iff]

/-- A schema accepts another if all types of the other have the storages of its own columns. -/
theorem accepts_iff : s.Accepts t ↔ ∀ name storage, s.storageOf? name = some storage →
    ∀ type ∈ t.typesFor name, type.storage = storage := by
  constructor
  · intro h name storage hstorage type htype
    obtain ⟨d, hd, rfl, rfl⟩ := exists_of_mem_typesFor htype
    exact (h d hd storage hstorage).symm
  · intro h d hd storage hstorage
    exact (h d.name storage hstorage d.type (mem_typesFor hd)).symm

/-! ## Promotion -/

theorem typesIn_eq_nil {types : List ColumnType} (h : ns.idxOf? name = none) :
    typesIn ns types name = [] := by
  have hnot : name ∉ ns := List.idxOf?_eq_none_iff.1 h
  rw [typesIn, List.map_eq_nil_iff, List.filter_eq_nil_iff]
  intro p hp hname
  exact hnot (beq_iff_eq.1 hname ▸ (List.of_mem_zip hp).1)

theorem typesIn_set {types : List ColumnType} {i : Nat} (hlength : ns.length = types.length)
    (h : ns.idxOf? name = some i) (type : ColumnType) (other : String) :
    typesIn ns (types.set i type) other =
      if other = name then type :: (typesIn ns types name).tail else typesIn ns types other := by
  induction ns generalizing types i with
  | nil => cases h
  | cons n ns ih =>
    obtain ⟨first, rest, rfl⟩ := List.exists_cons_of_length_eq_add_one hlength.symm
    have hrest : ns.length = rest.length := by simpa using hlength
    rw [List.idxOf?_cons] at h
    by_cases hn : n = name
    · subst hn
      rw [if_pos (by simp)] at h
      cases h
      by_cases hother : other = n
      · simp [typesIn, hother]
      · have hne : (n == other) = false := by simpa using fun hn => hother hn.symm
        simp [typesIn, hother, hne]
    · have hne : (n == name) = false := by simpa using hn
      rw [if_neg (by simp [hne])] at h
      obtain ⟨j, hj, rfl⟩ := Option.map_eq_some_iff.1 h
      have hcons : ∀ (types : List ColumnType) (name : String), typesIn (n :: ns) (first :: types)
          name = if n = name then first :: typesIn ns types name else typesIn ns types name := by
        intro types name
        by_cases hn : n = name
        · simp [typesIn, hn]
        · have hne : (n == name) = false := by simpa using hn
          simp [typesIn, hn, hne]
      rw [List.set_cons_succ, hcons, hcons, hcons, if_neg hn, ih hrest hj]
      by_cases hother : other = name
      · simp [hother, hn]
      · simp [hother]

theorem typesIn_cons {types : List ColumnType} {i : Nat} (hlength : ns.length = types.length)
    (h : ns.idxOf? name = some i) :
    ∃ first, typesIn ns types name = first :: (typesIn ns types name).tail := by
  have hi : i < types.length := hlength ▸ idxOf?_lt h
  have hset := typesIn_set hlength h types[i] name
  rw [List.set_getElem_self, if_pos rfl] at hset
  exact ⟨types[i], hset⟩

/-- Another type for a name replaces the type of its first declaration. -/
theorem typesFor_setType (h : s.Even) (hname : name ∈ s.names) (type : ColumnType)
    (other : String) : (s.setType name type).typesFor other =
      if other = name then type :: (s.typesFor name).tail else s.typesFor other := by
  unfold setType setType?
  cases hids : s.ids.idxOf? name with
  | some i =>
    obtain ⟨first, hfirst⟩ := typesIn_cons h.ids hids
    simp only [replaceType?_of_lt (h.ids ▸ idxOf?_lt hids), Option.map_some, Option.getD_some,
      typesFor, typesIn_set h.ids hids type]
    split
    · rename_i hother
      rw [hother, hfirst]
      rfl
    · rfl
  | none =>
    have hnil : ∀ {types : List ColumnType}, typesIn s.ids types name = [] := typesIn_eq_nil hids
    cases hfeatures : s.features.idxOf? name with
    | some i =>
      obtain ⟨first, hfirst⟩ := typesIn_cons h.features hfeatures
      simp only [replaceType?_of_lt (h.features ▸ idxOf?_lt hfeatures), Option.map_some,
        Option.getD_some, typesFor, typesIn_set h.features hfeatures type]
      split
      · rename_i hother
        rw [hother, hnil, hfirst]
        rfl
      · rfl
    | none =>
      have hnil' : ∀ {types : List ColumnType}, typesIn s.features types name = [] :=
        typesIn_eq_nil hfeatures
      cases hlabels : s.labels.idxOf? name with
      | some i =>
        simp only [replaceType?_of_lt (h.labels ▸ idxOf?_lt hlabels), Option.map_some,
          Option.getD_some, typesFor, typesIn_set h.labels hlabels type]
        split
        · rename_i hother
          rw [hother, hnil, hnil']
          rfl
        · rfl
      | none =>
        -- a declared name is in some group
        refine absurd ?_ (typesFor_ne_nil.2 hname)
        rw [typesFor, hnil, hnil', typesIn_eq_nil hlabels]
        rfl

/-- Promotion makes a float of the first declaration of a name. -/
theorem typesFor_promote (h : s.Even) (hns : ∀ n ∈ ns, n ∈ s.names) (name : String) :
    (s.promote ns).typesFor name =
      if name ∈ ns then .float64 :: (s.typesFor name).tail else s.typesFor name := by
  unfold promote
  induction ns generalizing s with
  | nil => simp
  | cons n ns ih =>
    have hrest : ∀ m ∈ ns, m ∈ (s.setType n .float64).names := fun m hm => by
      rw [names_setType]
      exact hns m (by simp [hm])
    rw [List.foldl_cons, ih (h.setType n .float64) hrest, typesFor_setType h (hns n (by simp))]
    by_cases hname : name = n
    · simp [hname]
    · simp [hname]

theorem storageOf?_promote (h : s.Even) (hns : ∀ n ∈ ns, n ∈ s.names) (name : String) :
    (s.promote ns).storageOf? name =
      if name ∈ ns then some .float64 else s.storageOf? name := by
  have htype := congrArg (Option.map ColumnType.storage) (lookup_promote h hns name)
  rw [Option.map_map] at htype
  refine htype.trans ?_
  split
  · rfl
  · rw [Option.map_map]
    rfl

/-- The columns are declared as text. -/
def AllText (s : Schema) (ns : List String) : Prop :=
  ∀ n ∈ ns, (s.lookup n).map Declaration.type = some .text

theorem AllText.declared (h : s.AllText ns) : ∀ n ∈ ns, n ∈ s.names := by
  intro n hn
  obtain ⟨d, hd, -⟩ := Option.map_eq_some_iff.1 (h n hn)
  exact mem_names_iff.2 ⟨d, hd⟩

theorem AllText.storage (h : s.AllText ns) (hname : name ∈ ns) :
    s.storageOf? name = some .text := by
  have htype := congrArg (Option.map ColumnType.storage) (h name hname)
  rw [Option.map_map] at htype
  exact htype

/-- If promoted schemas are not in conflict, a common column is promoted in both or in none, and has
no second declaration if it is promoted. -/
theorem agree_of_accepts_promote (hs : s.Even) (ht : t.Even) (h : s.Accepts t)
    (hns : s.AllText ns) (hms : t.AllText ms) (hboth : (s.promote ns).Accepts (t.promote ms))
    (hname : name ∈ s.names) (hname' : name ∈ t.names) :
    (name ∈ ns ↔ name ∈ ms) ∧ (name ∈ ms → t.names.count name = 1) := by
  obtain ⟨storage, hstorage⟩ := storageOf?_of_mem_names hname
  have hold := accepts_iff.1 h name storage hstorage
  have hnew := accepts_iff.1 hboth name
  rw [storageOf?_promote hs hns.declared, typesFor_promote ht hms.declared] at hnew
  obtain ⟨first, rest, hcons⟩ := List.exists_cons_of_ne_nil (typesFor_ne_nil.2 hname')
  rw [← length_typesFor]
  rw [hcons] at hold hnew ⊢
  by_cases hn : name ∈ ns
  · -- the column was declared as text in the other schema too
    obtain rfl : storage = .text := Option.some.inj (hstorage.symm.trans (hns.storage hn))
    rw [if_pos hn] at hnew
    have hnew := hnew .float64 rfl
    by_cases hm : name ∈ ms
    · refine ⟨iff_of_true hn hm, fun _ => ?_⟩
      rw [if_pos hm, List.tail_cons] at hnew
      cases rest with
      | nil => rfl
      | cons second rest =>
        have htext := hold second (by simp)
        have hfloat := hnew second (by simp)
        cases htext.symm.trans hfloat
    · rw [if_neg hm] at hnew
      have htext := hold first (by simp)
      have hfloat := hnew first (by simp)
      cases htext.symm.trans hfloat
  · by_cases hm : name ∈ ms
    · rw [if_neg hn, if_pos hm] at hnew
      have hfloat : ColumnType.float64.storage = storage := hnew storage hstorage _ (by simp)
      have htext : first.storage = storage := hold first (by simp)
      have hfirst : first.storage = .text := by
        have hlookup := head?_typesFor t name
        rw [hcons, hms name hm] at hlookup
        cases hlookup
        rfl
      cases hfirst.symm.trans (htext.trans hfloat.symm)
    · exact ⟨iff_of_false hn hm, fun hm' => absurd hm' hm⟩

theorem accepts_promote_of_agree (hs : s.Even) (ht : t.Even) (h : s.Accepts t)
    (hns : s.AllText ns) (hms : t.AllText ms) (hagree : ∀ name ∈ s.names, name ∈ t.names →
      (name ∈ ns ↔ name ∈ ms) ∧ (name ∈ ms → t.names.count name = 1)) :
    (s.promote ns).Accepts (t.promote ms) := by
  refine accepts_iff.2 fun name storage hstorage type htype => ?_
  have hname : name ∈ s.names := names_promote s ns ▸ mem_names_of_storageOf? hstorage
  have hname' : name ∈ t.names :=
    names_promote t ms ▸ typesFor_ne_nil.1 (List.ne_nil_of_mem htype)
  rw [storageOf?_promote hs hns.declared] at hstorage
  rw [typesFor_promote ht hms.declared] at htype
  obtain ⟨hiff, hcount⟩ := hagree name hname hname'
  by_cases hm : name ∈ ms
  · rw [if_pos (hiff.2 hm)] at hstorage
    cases hstorage
    have hlength := hcount hm
    rw [← length_typesFor] at hlength
    obtain ⟨first, hone⟩ := List.length_eq_one_iff.1 hlength
    rw [if_pos hm, hone] at htype
    rw [List.mem_singleton.1 htype]
    rfl
  · rw [if_neg fun hn => hm (hiff.1 hn)] at hstorage
    rw [if_neg hm] at htype
    exact accepts_iff.1 h name storage hstorage type htype

/-- After promotion a schema accepts another exactly if their common columns are promoted in both or
in none, and those that are promoted have no second declaration. -/
theorem accepts_promote_iff (hs : s.Even) (ht : t.Even) (h : s.Accepts t) (hns : s.AllText ns)
    (hms : t.AllText ms) : (s.promote ns).Accepts (t.promote ms) ↔
      ∀ name ∈ s.names, name ∈ t.names →
        (name ∈ ns ↔ name ∈ ms) ∧ (name ∈ ms → t.names.count name = 1) :=
  ⟨fun hboth _ => agree_of_accepts_promote hs ht h hns hms hboth,
    accepts_promote_of_agree hs ht h hns hms⟩

/-- A schema resolves every header that has its names. -/
theorem resolve_ok {header : List String} (h : ∀ name, name ∈ header ↔ name ∈ s.names) :
    ∃ types, s.resolve header = .ok types := by
  obtain ⟨types, hlength, htypes⟩ : ∃ types : List ColumnType, types.length = header.length ∧
      ∀ (i : Nat) (name : String) (type : ColumnType), header[i]? = some name →
        types[i]? = some type → ∃ d, s.lookup name = some d ∧ d.type = type := by
    refine exists_list fun i name hname => ?_
    obtain ⟨d, hd⟩ := mem_names_iff.1 ((h name).1 (List.mem_of_getElem? hname))
    exact ⟨d.type, d, hd, rfl⟩
  refine ⟨types, resolve_eq_ok.2 ⟨forall₂_of_getElem? hlength.symm htypes, fun d hd => ?_⟩⟩
  exact (h d.name).2 (mem_names_of_mem hd)

/-- The columns of a header that are promoted hold floats, and the others what they held before. -/
theorem resolve_promote {header : List String} {types : List ColumnType} (heven : s.Even)
    (hns : ∀ n ∈ ns, n ∈ s.names) (h : s.resolve header = .ok types) :
    ∃ types', (s.promote ns).resolve header = .ok types' ∧
      ∀ (i : Nat) (name : String) (type : ColumnType), header[i]? = some name →
        types[i]? = some type → types'[i]? = some (if name ∈ ns then .float64 else type) := by
  obtain ⟨types', htypes'⟩ : ∃ types', (s.promote ns).resolve header = .ok types' := by
    refine resolve_ok fun name => ?_
    rw [names_promote]
    exact names_of_resolve h
  refine ⟨types', htypes', fun i name type hname htype => ?_⟩
  obtain ⟨_, hold, d, hd, rfl⟩ := getElem?_of_forall₂ (resolve_eq_ok.1 h).1 hname
  obtain ⟨_, hnew, e, he, rfl⟩ := getElem?_of_forall₂ (resolve_eq_ok.1 htypes').1 hname
  cases hold.symm.trans htype
  have hlookup := lookup_promote heven hns name
  rw [he, hd, Option.map_some, Option.map_some] at hlookup
  rw [hnew, hlookup]
  split
  · rfl
  · rfl

end Schema

/-! ## Files -/

/-- Every column that bears one of the names holds nothing but numbers and blanks. -/
def Csv.Sheet.NumericAll (sheet : Csv.Sheet) (ns : List String) : Prop :=
  ∀ (i : Nat) (name : String), sheet.header[i]? = some name → name ∈ ns →
    sheet.numericAt i = true

theorem isNumeric_iff {raw : String} :
    isNumeric raw = true ↔ ∃ v, Value.ofCell .float64 raw = .ok v := by
  unfold isNumeric Value.ofCell Value.ofText
  by_cases hraw : raw = ""
  · subst hraw
    exact iff_of_true (by decide) ⟨.null, by simp⟩
  · by_cases hblank : Text.trim raw = ""
    · simp [hblank, hraw]
    · cases Binary64.read? (Text.trim raw) <;> simp [hraw, hblank]

namespace Table

/-- Records can be read at the storages of some columns if each cell can. -/
theorem reads_iff {columns : List (String × Storage)}
    {records : List (Except Csv.Fault (List String))} :
    (∃ rows, List.Forall₂ (Reads columns) records rows) ↔ ∀ record ∈ records, ∃ cells,
      record = .ok cells ∧ ∀ p ∈ columns.zip cells, ∃ v, Value.ofCell p.1.2 p.2 = .ok v := by
  constructor
  · rintro ⟨rows, hrows⟩ record hrecord
    obtain ⟨row, -, cells, hcells, hholds⟩ := exists_right_of_forall₂ hrows hrecord
    refine ⟨cells, hcells, fun p hp => ?_⟩
    obtain ⟨v, -, hv⟩ := exists_right_of_forall₂ hholds hp
    exact ⟨v, hv⟩
  · intro hall
    obtain ⟨rows, hlength, hrows⟩ : ∃ rows : List Row, rows.length = records.length ∧
        ∀ (i : Nat) (record : Except Csv.Fault (List String)) (row : Row),
          records[i]? = some record → rows[i]? = some row → Reads columns record row := by
      refine exists_list fun i record hrecord => ?_
      obtain ⟨cells, hcells, hvalues⟩ := hall record (List.mem_of_getElem? hrecord)
      obtain ⟨row, hlength, hrow⟩ : ∃ row : Row, row.length = (columns.zip cells).length ∧
          ∀ (i : Nat) (p : (String × Storage) × String) (v : Value),
            (columns.zip cells)[i]? = some p → row[i]? = some v →
              Value.ofCell p.1.2 p.2 = .ok v :=
        exists_list fun i p hp => hvalues p (List.mem_of_getElem? hp)
      exact ⟨row, cells, hcells, forall₂_of_getElem? hlength.symm hrow⟩
    exact ⟨rows, forall₂_of_getElem? hlength.symm hrows⟩

theorem mem_zip_columnsOf {header cells : List String} {types : List ColumnType}
    {p : (String × Storage) × String} : p ∈ (columnsOf header types).zip cells ↔
      ∃ (i : Nat) (type : ColumnType), header[i]? = some p.1.1 ∧ types[i]? = some type ∧
        type.storage = p.1.2 ∧ cells[i]? = some p.2 := by
  rw [List.mem_iff_getElem?]
  refine exists_congr fun i => ?_
  simp only [columnsOf, List.getElem?_zip_eq_some, List.getElem?_map, Option.map_eq_some_iff]
  constructor
  · rintro ⟨⟨hname, type, htype, hstorage⟩, hcell⟩
    exact ⟨type, hname, htype, hstorage, hcell⟩
  · rintro ⟨type, hname, htype, hstorage, hcell⟩
    exact ⟨⟨hname, type, htype, hstorage⟩, hcell⟩

/-- A file whose header is resolved can be loaded if each cell can be read. -/
theorem load_ok_iff {files : FileTree} {path : FilePath} {delimiter : UInt8} {schema : Schema}
    {types : List ColumnType} {sheet : Csv.Sheet}
    (hread : files.readSheet path delimiter = .ok sheet)
    (hresolve : schema.resolve sheet.header = .ok types) :
    (∃ table, load files path delimiter schema = .ok table) ↔ ∀ record ∈ sheet.records, ∃ cells,
      record = .ok cells ∧ ∀ p ∈ (columnsOf sheet.header types).zip cells,
        ∃ v, Value.ofCell p.1.2 p.2 = .ok v := by
  rw [← reads_iff]
  constructor
  · rintro ⟨table, hload⟩
    obtain ⟨sheet', hread', hsheet⟩ := load_eq_ok.1 hload
    cases hread.symm.trans hread'
    obtain ⟨types', hresolve', -, -, hrows⟩ := ofSheet_eq_ok.1 hsheet
    cases hresolve.symm.trans hresolve'
    exact ⟨table.rows, hrows⟩
  · rintro ⟨rows, hrows⟩
    exact ⟨⟨sheet.header, types.map ColumnType.storage, rows⟩, load_eq_ok.2 ⟨sheet, hread,
      ofSheet_eq_ok.2 ⟨types, hresolve, rfl, rfl, hrows⟩⟩⟩

/-- A file that can be loaded as its schema declares it can be loaded after promotion exactly if the
promoted columns hold nothing but numbers and blanks. -/
theorem load_promote_iff {files : FileTree} {path : FilePath} {delimiter : UInt8} {schema : Schema}
    {ns : List String} {table : Table} {sheet : Csv.Sheet} (heven : schema.Even)
    (hns : ∀ n ∈ ns, n ∈ schema.names) (hload : load files path delimiter schema = .ok table)
    (hread : files.readSheet path delimiter = .ok sheet) :
    (∃ promoted, load files path delimiter (schema.promote ns) = .ok promoted) ↔
      sheet.NumericAll ns := by
  obtain ⟨sheet', hread', hsheet⟩ := load_eq_ok.1 hload
  cases hread.symm.trans hread'
  obtain ⟨types, hresolve, -, -, hrows⟩ := ofSheet_eq_ok.1 hsheet
  obtain ⟨types', hresolve', htypes'⟩ := Schema.resolve_promote heven hns hresolve
  have hcells := reads_iff.1 ⟨table.rows, hrows⟩
  rw [load_ok_iff hread hresolve']
  constructor
  · intro hall i name hname hmem
    unfold Csv.Sheet.numericAt
    refine List.all_eq_true.2 fun record hrecord => ?_
    obtain ⟨cells, rfl, hvalues⟩ := hall record hrecord
    obtain ⟨raw, hraw⟩ : ∃ raw, cells[i]? = some raw := by
      have hi := (List.getElem?_eq_some_iff.1 hname).1
      rw [← width_of_readSheet hread hrecord] at hi
      exact ⟨cells[i], List.getElem?_eq_getElem hi⟩
    obtain ⟨type, htype, -⟩ := getElem?_of_forall₂ (resolve_eq_ok.1 hresolve).1 hname
    have htype' := htypes' i name type hname htype
    rw [if_pos hmem] at htype'
    have hvalue := hvalues ((name, .float64), raw)
      (mem_zip_columnsOf.2 ⟨i, .float64, hname, htype', rfl, hraw⟩)
    dsimp only
    rw [hraw]
    exact isNumeric_iff.2 hvalue
  · intro hnumeric record hrecord
    obtain ⟨cells, rfl, hvalues⟩ := hcells record hrecord
    refine ⟨cells, rfl, fun p hp => ?_⟩
    obtain ⟨i, type', hname, htype', hsame, hraw⟩ := mem_zip_columnsOf.1 hp
    obtain ⟨type, htype, -⟩ := getElem?_of_forall₂ (resolve_eq_ok.1 hresolve).1 hname
    rw [← hsame, Option.some.inj (htype'.symm.trans (htypes' i _ type hname htype))]
    split
    · rename_i hmem
      have hcolumn := List.all_eq_true.1 (hnumeric i _ hname hmem) _ hrecord
      dsimp only at hcolumn
      rw [hraw] at hcolumn
      exact isNumeric_iff.1 hcolumn
    · exact hvalues ((p.1.1, type.storage), p.2)
        (mem_zip_columnsOf.2 ⟨i, type, hname, htype, rfl, hraw⟩)

end Table

end Equijoin
