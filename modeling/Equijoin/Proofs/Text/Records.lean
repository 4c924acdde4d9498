import Equijoin.Csv.Sheet
import Equijoin.Proofs.Outcomes
import Equijoin.Proofs.Text.Encoding

/-! # Written records are read back

A reader of delimited text finds in written lines the records that were written, whatever bytes
their fields hold.

* `fieldsFrom`: the fields of the records of a text. They do not depend on positions.
* `fieldsFrom_writeField`: a written field is read back, up to the byte that ends it.
* `fieldsFrom_writeRecord`: a written record is read back.
* `read_lines`: written lines make up a sheet.
* `length_of_read`: the records of a sheet are as wide as its header.
-/

set_option autoImplicit false

namespace Equijoin.Csv

/-- The byte has no other meaning: it is no quote and ends no record. -/
structure Separates (delimiter : UInt8) : Prop where
  quote : delimiter ≠ quoteByte
  terminator : isTerminator delimiter = false

variable {d : UInt8}

/-! ## Fields without positions -/

/-- The fields of the records of the rest of a text. -/
def fieldsFrom (d : UInt8) (mode : Mode) (field : Bytes) (fields : List Bytes) (text : Bytes) :
    List (List Bytes) :=
  (scanFrom d mode field fields .origin .origin text).map Record.fields

theorem scanFrom_fields (mode : Mode) (field : Bytes) (fields : List Bytes)
    (start here : Position) (text : Bytes) :
    (scanFrom d mode field fields start here text).map Record.fields =
      fieldsFrom d mode field fields text := by
  unfold fieldsFrom
  induction text generalizing mode field fields start here with
  | nil => cases mode <;> rfl
  | cons b text ih =>
    have hsame : ∀ (mode : Mode) (field : Bytes) (fields : List Bytes) (p q p' q' : Position),
        (scanFrom d mode field fields p q text).map Record.fields =
          (scanFrom d mode field fields p' q' text).map Record.fields :=
      fun mode field fields p q p' q' => (ih mode field fields p q).trans
        (ih mode field fields p' q').symm
    simp only [scanFrom]
    cases step d mode b with
    | skip next => exact hsame _ _ _ _ _ _ _
    | copy next => exact hsame _ _ _ _ _ _ _
    | endField => exact hsame _ _ _ _ _ _ _
    | endRecord next =>
      simp only [List.map_cons]
      exact congrArg _ (hsame _ _ _ _ _ _ _)

theorem fieldsFrom_cons (mode : Mode) (field : Bytes) (fields : List Bytes) (b : UInt8)
    (text : Bytes) : fieldsFrom d mode field fields (b :: text) =
      match step d mode b with
      | .skip next => fieldsFrom d next field fields text
      | .copy next => fieldsFrom d next (b :: field) fields text
      | .endField => fieldsFrom d .field [] (field.reverse :: fields) text
      | .endRecord next => (field.reverse :: fields).reverse :: fieldsFrom d next [] [] text := by
  unfold fieldsFrom
  simp only [scanFrom]
  cases step d mode b with
  | skip next => exact scanFrom_fields _ _ _ _ _ _
  | copy next => exact scanFrom_fields _ _ _ _ _ _
  | endField => exact scanFrom_fields _ _ _ _ _ _
  | endRecord next =>
    simp only [List.map_cons]
    exact congrArg _ (scanFrom_fields _ _ _ _ _ _)

/-! ## The end of a field -/

/-- A delimiter and a line feed end the field in this mode. -/
def Closes (mode : Mode) : Prop := mode = .field ∨ mode = .plain ∨ mode = .quoteSeen

theorem stepPlain_delimiter : stepPlain d d = .endField := by
  simp [stepPlain]

theorem Separates.ne_lineFeed (h : Separates d) : d ≠ lineFeed := by
  rintro rfl
  exact absurd h.terminator (by decide)

theorem stepPlain_lineFeed (h : d ≠ lineFeed) : stepPlain d lineFeed = .endRecord .record := by
  have hne : (lineFeed == d) = false := beq_eq_false_iff_ne.2 h.symm
  have hterminator : isTerminator lineFeed = true := by decide
  have hcarriage : (lineFeed == carriageReturn) = false := by decide
  simp only [stepPlain, hne, hterminator, hcarriage, Bool.false_eq_true, if_false, if_true]

theorem fieldsFrom_delimiter (h : d ≠ quoteByte) {mode : Mode} (hmode : Closes mode) (field : Bytes)
    (fields : List Bytes) (text : Bytes) : fieldsFrom d mode field fields (d :: text) =
      fieldsFrom d .field [] (field.reverse :: fields) text := by
  have hquote : (d == quoteByte) = false := beq_eq_false_iff_ne.2 h
  have hstep : step d mode d = .endField := by
    rcases hmode with rfl | rfl | rfl
    · simp only [step, stepField, hquote, Bool.false_eq_true, if_false, stepPlain_delimiter]
    · exact stepPlain_delimiter
    · simp only [step, hquote, Bool.false_eq_true, if_false, stepPlain_delimiter]
  rw [fieldsFrom_cons, hstep]

theorem fieldsFrom_lineFeed (h : d ≠ lineFeed) {mode : Mode} (hmode : Closes mode) (field : Bytes)
    (fields : List Bytes) (text : Bytes) : fieldsFrom d mode field fields (lineFeed :: text) =
      (fields.reverse ++ [field.reverse]) :: fieldsFrom d .record [] [] text := by
  have hquote : (lineFeed == quoteByte) = false := by decide
  have hstep : step d mode lineFeed = .endRecord .record := by
    rcases hmode with rfl | rfl | rfl
    · simp only [step, stepField, hquote, Bool.false_eq_true, if_false, stepPlain_lineFeed h]
    · exact stepPlain_lineFeed h
    · simp only [step, hquote, Bool.false_eq_true, if_false, stepPlain_lineFeed h]
  rw [fieldsFrom_cons, hstep, List.reverse_cons]

/-! ## The bytes of a field -/

theorem fieldsFrom_plain {bytes : Bytes} (h : ∀ b ∈ bytes, needsQuotes d b = false)
    (field : Bytes) (fields : List Bytes) (text : Bytes) :
    fieldsFrom d .plain field fields (bytes ++ text) =
      fieldsFrom d .plain (bytes.reverse ++ field) fields text := by
  induction bytes generalizing field with
  | nil => rfl
  | cons b bytes ih =>
    have hb := h b (by simp)
    simp only [needsQuotes, Bool.or_eq_false_iff] at hb
    have hstep : step d .plain b = .copy .plain := by
      simp only [step, stepPlain, hb.1.1, hb.2, Bool.false_eq_true, if_false]
    rw [List.cons_append, fieldsFrom_cons, hstep]
    simp only [ih fun b' hb' => h b' (by simp [hb']), List.reverse_cons, List.append_assoc,
      List.cons_append, List.nil_append]

theorem fieldsFrom_quoted (bytes field : Bytes) (fields : List Bytes) (text : Bytes) :
    fieldsFrom d .quoted field fields (doubleQuotes bytes ++ text) =
      fieldsFrom d .quoted (bytes.reverse ++ field) fields text := by
  induction bytes generalizing field with
  | nil => rfl
  | cons b bytes ih =>
    have hrest : (b :: bytes).reverse ++ field = bytes.reverse ++ b :: field := by simp
    rw [hrest, ← ih (b :: field)]
    have hcons : doubleQuotes (b :: bytes) =
        (if b == quoteByte then [quoteByte, quoteByte] else [b]) ++ doubleQuotes bytes := rfl
    rw [hcons]
    by_cases hb : b = quoteByte
    · subst hb
      have hfirst : step d .quoted quoteByte = .skip .quoteSeen := rfl
      have hsecond : step d .quoteSeen quoteByte = .copy .quoted := rfl
      rw [if_pos (by simp), List.cons_append, List.cons_append, List.cons_append,
        List.cons_append, List.nil_append, fieldsFrom_cons, hfirst]
      dsimp only
      rw [fieldsFrom_cons, hsecond]
    · have hquote : (b == quoteByte) = false := by simpa using hb
      have hstep : step d .quoted b = .copy .quoted := by
        simp only [step, hquote, Bool.false_eq_true, if_false]
      rw [hquote, if_neg (by simp), List.cons_append, List.nil_append, List.cons_append,
        fieldsFrom_cons, hstep]

/-- A written field is read back, up to the byte that ends it. -/
theorem fieldsFrom_writeField (field : Bytes) (fields : List Bytes) (text : Bytes) :
    ∃ mode, Closes mode ∧ fieldsFrom d .field [] fields (writeField d field ++ text) =
      fieldsFrom d mode field.reverse fields text := by
  unfold writeField
  split
  · refine ⟨.quoteSeen, .inr (.inr rfl), ?_⟩
    have hopen : step d .field quoteByte = .skip .quoted := rfl
    have hclose : step d .quoted quoteByte = .skip .quoteSeen := rfl
    rw [List.cons_append, List.cons_append, fieldsFrom_cons, hopen]
    simp only [List.append_assoc, List.cons_append, List.nil_append]
    rw [fieldsFrom_quoted, fieldsFrom_cons, hclose, List.append_nil]
  · rename_i hplain
    have hplain : ∀ b ∈ field, needsQuotes d b = false := by
      intro b hb
      rw [Bool.eq_false_iff]
      exact fun hneeds => hplain (List.any_eq_true.2 ⟨b, hb, hneeds⟩)
    cases field with
    | nil => exact ⟨.field, .inl rfl, rfl⟩
    | cons b bytes =>
      refine ⟨.plain, .inr (.inl rfl), ?_⟩
      have hb := hplain b (by simp)
      simp only [needsQuotes, Bool.or_eq_false_iff] at hb
      have hstep : step d .field b = .copy .plain := by
        simp only [step, stepField, stepPlain, hb.1.2, hb.1.1, hb.2, Bool.false_eq_true, if_false]
      rw [List.cons_append, fieldsFrom_cons, hstep]
      simp only [fieldsFrom_plain fun b' hb' => hplain b' (List.mem_cons_of_mem b hb'),
        List.reverse_cons]

/-! ## Records -/

theorem fieldsFrom_intercalate (hquote : d ≠ quoteByte) (h : d ≠ lineFeed)
    {fields : List Bytes} (hne : fields ≠ []) (earlier : List Bytes) (text : Bytes) :
    fieldsFrom d .field [] earlier
        ([d].intercalate (fields.map (writeField d)) ++ lineFeed :: text) =
      (earlier.reverse ++ fields) :: fieldsFrom d .record [] [] text := by
  induction fields generalizing earlier with
  | nil => exact absurd rfl hne
  | cons field fields ih =>
    cases fields with
    | nil =>
      obtain ⟨mode, hmode, hfield⟩ := fieldsFrom_writeField (d := d) field earlier
        (lineFeed :: text)
      simp only [List.map_cons, List.map_nil, List.intercalate_singleton]
      rw [hfield, fieldsFrom_lineFeed h hmode, List.reverse_reverse]
    | cons next fields =>
      have hline : [d].intercalate ((field :: next :: fields).map (writeField d)) =
          writeField d field ++ d :: [d].intercalate ((next :: fields).map (writeField d)) := by
        simp [List.intercalate_cons_cons]
      rw [hline, List.append_assoc, List.cons_append]
      obtain ⟨mode, hmode, hfield⟩ := fieldsFrom_writeField (d := d) field earlier
        (d :: ([d].intercalate ((next :: fields).map (writeField d)) ++ lineFeed :: text))
      rw [hfield, fieldsFrom_delimiter hquote hmode, ih (by simp), List.reverse_reverse,
        List.reverse_cons, List.append_assoc]
      rfl

theorem line_cons (d : UInt8) (field : Bytes) (fields : List Bytes) :
    ∃ more, [d].intercalate ((field :: fields).map (writeField d)) = writeField d field ++ more ∧
      (more = [] ∧ fields = [] ∨ ∃ rest, more = d :: rest) := by
  cases fields with
  | nil => exact ⟨[], by simp, .inl ⟨rfl, rfl⟩⟩
  | cons next fields =>
    refine ⟨d :: [d].intercalate ((next :: fields).map (writeField d)), ?_, .inr ⟨_, rfl⟩⟩
    simp [List.intercalate_cons_cons]

theorem writeField_cases (d : UInt8) (field : Bytes) :
    (∃ rest, writeField d field = quoteByte :: rest) ∨
      writeField d field = field ∧ ∀ b ∈ field, needsQuotes d b = false := by
  unfold writeField
  split
  · exact .inl ⟨_, rfl⟩
  · rename_i hplain
    refine .inr ⟨rfl, fun b hb => ?_⟩
    rw [Bool.eq_false_iff]
    exact fun hneeds => hplain (List.any_eq_true.2 ⟨b, hb, hneeds⟩)

theorem writeField_eq_nil {field : Bytes} (h : writeField d field = []) : field = [] := by
  rcases writeField_cases d field with ⟨rest, hquoted⟩ | ⟨hplain, -⟩
  · rw [hquoted] at h
    cases h
  · exact hplain.symm.trans h

theorem head_line (h : isTerminator d = false) {fields : List Bytes} {b : UInt8} {rest : Bytes}
    (hline : [d].intercalate (fields.map (writeField d)) = b :: rest) :
    isTerminator b = false := by
  cases fields with
  | nil => cases hline
  | cons field fields =>
    obtain ⟨more, hmore, hrest⟩ := line_cons d field fields
    rw [hmore] at hline
    rcases writeField_cases d field with ⟨bytes, hfield⟩ | ⟨hfield, hplain⟩
    · rw [hfield] at hline
      cases hline
      decide
    · rw [hfield] at hline
      cases field with
      | nil =>
        -- the first field is empty, so that the line starts with a delimiter
        rcases hrest with ⟨rfl, -⟩ | ⟨bytes, rfl⟩
        · cases hline
        · cases hline
          exact h
      | cons b' bytes =>
        cases hline
        have hb := hplain b (by simp)
        simp only [needsQuotes, Bool.or_eq_false_iff] at hb
        exact hb.2

/-- A record begins with its first field, unless with a byte that is skipped. -/
theorem fieldsFrom_start {b : UInt8} (hb : isTerminator b = false) (field : Bytes)
    (fields : List Bytes) (text : Bytes) : fieldsFrom d .record field fields (b :: text) =
      fieldsFrom d .field field fields (b :: text) := by
  have hstep : step d .record b = step d .field b := by
    simp only [step, stepRecord, hb, Bool.false_eq_true, if_false]
  rw [fieldsFrom_cons, fieldsFrom_cons, hstep]

/-- A quoted field of no bytes is a record with an empty field. -/
theorem fieldsFrom_empty (h : d ≠ lineFeed) (text : Bytes) :
    fieldsFrom d .record [] [] (quoteByte :: quoteByte :: lineFeed :: text) =
      [[]] :: fieldsFrom d .record [] [] text := by
  have hopen : step d .record quoteByte = .skip .quoted := rfl
  have hclose : step d .quoted quoteByte = .skip .quoteSeen := rfl
  rw [fieldsFrom_cons, hopen]
  dsimp only
  rw [fieldsFrom_cons, hclose]
  exact fieldsFrom_lineFeed h (.inr (.inr rfl)) [] [] text

/-- A written record is read back. -/
theorem fieldsFrom_writeRecord (h : Separates d) {fields : List Bytes} (hne : fields ≠ [])
    (text : Bytes) : fieldsFrom d .record [] [] (writeRecord d fields ++ text) =
      fields :: fieldsFrom d .record [] [] text := by
  unfold writeRecord
  dsimp only
  cases hline : [d].intercalate (fields.map (writeField d)) with
  | nil =>
    -- only a single empty field makes an empty line
    have hempty : fields = [[]] := by
      cases fields with
      | nil => exact absurd rfl hne
      | cons field fields =>
        cases fields with
        | nil =>
          simp only [List.map_cons, List.map_nil, List.intercalate_singleton] at hline
          rw [writeField_eq_nil hline]
        | cons next fields => simp [List.intercalate_cons_cons] at hline
    subst hempty
    exact fieldsFrom_empty h.ne_lineFeed text
  | cons b rest =>
    have hrecord := fieldsFrom_intercalate h.quote h.ne_lineFeed hne [] text
    rw [hline] at hrecord
    simp only [List.isEmpty_cons, Bool.false_eq_true, if_false, List.cons_append,
      List.append_assoc, List.nil_append] at hrecord ⊢
    rw [fieldsFrom_start (head_line h.terminator hline), hrecord]
    rfl

/-! ## Sheets -/

/-- A text does not begin with a byte order mark. -/
def Unmarked (text : Bytes) : Prop := ∀ rest, text ≠ 0xEF :: 0xBB :: 0xBF :: rest

/-- The byte order mark. -/
def mark : Char := Char.ofNat 0xFEFF

/-- What a line begins with: a quote, the first character of its first field, or, if that is empty,
the delimiter. -/
theorem line_begins (d : UInt8) (name : String) (names : List String) :
    ∃ line, [d].intercalate ((encodeFields (name :: names)).map (writeField d)) = line ∧
      ((∃ rest, line = quoteByte :: rest) ∨
      (∃ c cs rest, name.toList = c :: cs ∧ line = String.utf8EncodeChar c ++ rest) ∨
      line = [] ∨
      ∃ next rest, names = next :: rest ∧
        line = d :: [d].intercalate ((encodeFields names).map (writeField d))) := by
  obtain ⟨more, hmore, hrest⟩ := line_cons d (Utf8.encode name) (encodeFields names)
  refine ⟨_, hmore, ?_⟩
  rcases writeField_cases d (Utf8.encode name) with ⟨bytes, hfield⟩ | ⟨hfield, -⟩
  · exact .inl ⟨bytes ++ more, by rw [hfield, List.cons_append]⟩
  · cases hchars : name.toList with
    | cons c cs =>
      refine .inr (.inl ⟨c, cs, Utf8.encodeChars cs ++ more, rfl, ?_⟩)
      have hbytes : Utf8.encode name = String.utf8EncodeChar c ++ Utf8.encodeChars cs := by
        rw [Utf8.encode, hchars]
        rfl
      rw [hfield, hbytes, List.append_assoc]
    | nil =>
      have hbytes : Utf8.encode name = [] := by
        rw [Utf8.encode, hchars]
        rfl
      rw [hfield, hbytes, List.nil_append]
      cases names with
      | nil =>
        rcases hrest with ⟨rfl, -⟩ | ⟨rest, rfl⟩
        · exact .inr (.inr (.inl rfl))
        · simp [encodeFields, List.intercalate_singleton, hbytes] at hmore
      | cons next names =>
        refine .inr (.inr (.inr ⟨next, names, rfl, ?_⟩))
        have hline : [d].intercalate
            ((Utf8.encode name :: encodeFields (next :: names)).map (writeField d)) =
            writeField d (Utf8.encode name) ++
              d :: [d].intercalate ((encodeFields (next :: names)).map (writeField d)) := by
          simp [encodeFields, List.intercalate_cons_cons]
        rw [hline, hfield, hbytes] at hmore
        exact hmore.symm

/-- The second byte of the mark leads no character. -/
theorem scalar?_tail (b : UInt8) (rest : Bytes) : Utf8.scalar? (0xBB :: b :: rest) = none := by
  have hthree : Utf8.leadsThree 0xBB b = false := by
    simp [Utf8.leadsThree]
  have hfour : Utf8.leadsFour 0xBB b = false := by
    simp [Utf8.leadsFour]
  unfold Utf8.scalar?
  rcases rest with - | ⟨c, - | ⟨e, rest⟩⟩ <;> simp [hthree, hfour]

theorem unmarked_writeLine {name : String} (names : List String)
    (hname : name.toList.head? ≠ some mark) (text : Bytes) :
    Unmarked (writeLine d (name :: names) ++ text) := by
  intro rest hrest
  unfold writeLine writeRecord at hrest
  dsimp only at hrest
  obtain ⟨line, hline, hbegins⟩ := line_begins d name names
  rw [hline] at hrest
  rcases hbegins with ⟨bytes, rfl⟩ | ⟨c, cs, bytes, hchars, rfl⟩ | rfl | ⟨next, more, rfl, rfl⟩
  · exact absurd (List.cons.inj hrest).1 (by decide)
  · have hne : (String.utf8EncodeChar c ++ bytes).isEmpty = false :=
      List.isEmpty_eq_false_iff.2 (List.append_ne_nil_of_left_ne_nil String.utf8EncodeChar_ne_nil _)
    rw [hne, if_neg (by simp), List.append_assoc, List.append_assoc] at hrest
    have hscalar := Utf8.scalar?_encodeChar c (bytes ++ ([lineFeed] ++ text))
    rw [hrest] at hscalar
    have hmark : Utf8.scalar? (0xEF :: 0xBB :: 0xBF :: rest) = some (mark, rest) := by
      simp [Utf8.scalar?, Utf8.leadsThree, Utf8.isTail, Utf8.payload, mark]
    rw [hmark, Option.some_inj] at hscalar
    rw [hchars, ← (Prod.mk.inj hscalar).1] at hname
    exact hname rfl
  · exact absurd (List.cons.inj hrest).1 (by decide)
  · -- the first field is empty: after the delimiter, no field begins inside a character
    obtain ⟨hd, hrest⟩ := List.cons.inj hrest
    obtain ⟨line, hline, hbegins⟩ := line_begins d next more
    have hrest : line ++ ([lineFeed] ++ text) = 0xBB :: 0xBF :: rest := by
      rw [← hrest, ← hline]
      exact (List.append_assoc _ _ _).symm
    rcases hbegins with ⟨bytes, rfl⟩ | ⟨c, -, bytes, -, rfl⟩ | rfl | ⟨-, -, -, rfl⟩
    · exact absurd (List.cons.inj hrest).1 (by decide)
    · have hscalar := Utf8.scalar?_encodeChar c (bytes ++ ([lineFeed] ++ text))
      rw [← List.append_assoc, hrest, scalar?_tail] at hscalar
      cases hscalar
    · exact absurd (List.cons.inj hrest).1 (by decide)
    · rw [hd] at hrest
      exact absurd (List.cons.inj hrest).1 (by decide)

theorem scan_fields {text : Bytes} (h : Unmarked text) :
    (scan d text).map Record.fields = fieldsFrom d .record [] [] text := by
  unfold scan
  split
  · rename_i rest
    exact absurd rfl (h rest)
  · exact scanFrom_fields _ _ _ _ _ _

theorem fieldsFrom_lines (h : Separates d) {records : List (List Bytes)}
    (hne : ∀ r ∈ records, r ≠ []) :
    fieldsFrom d .record [] [] (records.flatMap (writeRecord d)) = records := by
  induction records with
  | nil => rfl
  | cons r records ih =>
    rw [List.flatMap_cons, fieldsFrom_writeRecord h (hne r (by simp)),
      ih fun r' hr' => hne r' (by simp [hr'])]

theorem decodeFields_encodeFields (start : Position) (index : Nat) (fields : List String) :
    decodeFields start index (encodeFields fields) = .ok fields := by
  induction fields generalizing index with
  | nil => rfl
  | cons field fields ih =>
    have hcons : encodeFields (field :: fields) = Utf8.encode field :: encodeFields fields := rfl
    rw [hcons, decodeFields, Utf8.decode_encode]
    dsimp only
    rw [ih]
    rfl

theorem length_decodeFields {start : Position} {index : Nat} {fields : List Bytes}
    {texts : List String} (h : decodeFields start index fields = .ok texts) :
    texts.length = fields.length := by
  induction fields generalizing index texts with
  | nil =>
    cases h
    rfl
  | cons field fields ih =>
    unfold decodeFields at h
    split at h
    · cases h
    · obtain ⟨rest, hrest, rfl⟩ := map_eq_ok.1 h
      rw [List.length_cons, List.length_cons, ih hrest]

/-- The records of a sheet are as wide as its header. -/
theorem length_of_read {text : Bytes} {sheet : Sheet} (h : Sheet.read d text = .ok sheet)
    {cells : List String} (hcells : .ok cells ∈ sheet.records) :
    cells.length = sheet.header.length := by
  unfold Sheet.read at h
  split at h
  · cases h
    cases hcells
  · rename_i header records hscan
    obtain ⟨names, hnames, rfl⟩ := map_eq_ok.1 h
    obtain ⟨r, -, hr⟩ := List.mem_map.1 hcells
    unfold checkRecord at hr
    split at hr
    · rename_i hwidth
      rw [length_decodeFields hr, hwidth, length_decodeFields hnames]
    · cases hr

theorem checkRecord_encodeFields {width : Nat} (place : Position) {r : Record}
    {fields : List String} (hfields : r.fields = encodeFields fields)
    (hwidth : fields.length = width) : checkRecord width place r = .ok fields := by
  have hlength : (encodeFields fields).length = fields.length := List.length_map _
  unfold checkRecord
  rw [hfields, hlength, if_pos hwidth, decodeFields_encodeFields]

theorem checkRecords_encodeFields {width : Nat} {scanned : List Record}
    {records : List (List String)} (hfields : scanned.map Record.fields = records.map encodeFields)
    (hwidth : ∀ r ∈ records, r.length = width) :
    scanned.map (fun r => checkRecord width r.start r) = records.map .ok := by
  induction records generalizing scanned with
  | nil =>
    rw [List.map_nil, List.map_eq_nil_iff] at hfields
    rw [hfields]
    rfl
  | cons fields records ih =>
    obtain ⟨r, rest, rfl, hr, hrest⟩ := List.map_eq_cons_iff.1 hfields
    rw [List.map_cons, List.map_cons, ih hrest fun f hf => hwidth f (by simp [hf]),
      checkRecord_encodeFields r.start hr (hwidth fields (by simp))]

/-- Written lines make up a sheet. -/
theorem read_lines (h : Separates d) {header : List String} {records : List (List String)}
    (hheader : header ≠ []) (hwidth : ∀ r ∈ records, r.length = header.length)
    (hmark : Unmarked (writeLine d header ++ records.flatMap (writeLine d))) :
    Sheet.read d (writeLine d header ++ records.flatMap (writeLine d)) =
      .ok ⟨header, records.map .ok⟩ := by
  have hlines : writeLine d header ++ records.flatMap (writeLine d) =
      ((header :: records).map encodeFields).flatMap (writeRecord d) := by
    rw [List.flatMap_map, List.flatMap_cons]
    rfl
  have hne : ∀ r ∈ (header :: records).map encodeFields, r ≠ [] := by
    intro r hr
    obtain ⟨fields, hfields, rfl⟩ := List.mem_map.1 hr
    have hfields : fields ≠ [] := by
      rcases List.mem_cons.1 hfields with rfl | hmem
      · exact hheader
      · intro hnil
        have hlength := hwidth fields hmem
        rw [hnil, List.length_nil, eq_comm, List.length_eq_zero_iff] at hlength
        exact hheader hlength
    intro hnil
    exact hfields (List.map_eq_nil_iff.1 hnil)
  have hscan := scan_fields (d := d) hmark
  rw [hlines, fieldsFrom_lines h hne, ← hlines] at hscan
  generalize writeLine d header ++ records.flatMap (writeLine d) = text at hscan
  unfold Sheet.read
  rw [List.map_cons] at hscan
  obtain ⟨first, rest, hscan, hfirst, hrest⟩ := List.map_eq_cons_iff.1 hscan
  rw [hscan]
  dsimp only
  rw [hfirst, decodeFields_encodeFields]
  have hlength : (encodeFields header).length = header.length := List.length_map _
  have hrecords := checkRecords_encodeFields hrest hwidth
  rw [hlength, hrecords]
  rfl

end Equijoin.Csv
