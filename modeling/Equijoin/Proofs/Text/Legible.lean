import Equijoin.Proofs.Text.Headers

/-! # Headers that are read back

The lines of a header and of records are read as this header and these records, whatever they hold,
unless the lines begin with a byte order mark, or there is no column.

* `Legible`: the headers that are read back.
* `read_lines_iff`: the lines below a header are read back exactly if the header is legible.
-/

set_option autoImplicit false

namespace Equijoin.Csv

/-- The header has a column, and if its first name begins with a byte order mark, this stands
between quotes. -/
def Legible (d : UInt8) (header : List String) : Prop :=
  ∃ name names, header = name :: names ∧
    (name.toList.head? = some mark → ∃ b ∈ Utf8.encode name, needsQuotes d b = true)

variable {d : UInt8} {header : List String} {records : List (List String)}

theorem Legible.unmarked (h : Legible d header) (text : Bytes) :
    Unmarked (writeLine d header ++ text) := by
  obtain ⟨name, names, rfl, hname⟩ := h
  by_cases hmark : name.toList.head? = some mark
  · -- the first byte is a quote
    obtain ⟨b, hb, hneeds⟩ := hname hmark
    obtain ⟨rest, hrest⟩ : ∃ rest, writeField d (Utf8.encode name) = quoteByte :: rest := by
      rcases writeField_cases d (Utf8.encode name) with hquoted | ⟨-, hplain⟩
      · exact hquoted
      · rw [hplain b hb] at hneeds
        cases hneeds
    obtain ⟨more, hmore, -⟩ := line_cons d (Utf8.encode name) (encodeFields names)
    have hline : ∃ line, writeLine d (name :: names) = quoteByte :: line := by
      refine ⟨rest ++ more ++ [lineFeed], ?_⟩
      have hcons : encodeFields (name :: names) = Utf8.encode name :: encodeFields names := rfl
      unfold writeLine writeRecord
      rw [hcons, hmore, hrest]
      rfl
    obtain ⟨line, hline⟩ := hline
    intro bytes hbytes
    rw [hline] at hbytes
    exact absurd (List.cons.inj hbytes).1 (by decide)
  · exact unmarked_writeLine names hmark text

/-- What is found in a text that is read as a sheet with columns. -/
theorem scan_of_read {text : Bytes} {sheet : Sheet} (h : Sheet.read d text = .ok sheet)
    (hheader : sheet.header ≠ []) :
    ∃ more, (scan d text).map Record.fields = encodeFields sheet.header :: more ∧
      more.length = sheet.records.length := by
  cases hscan : scan d text with
  | nil =>
    unfold Sheet.read at h
    rw [hscan] at h
    cases h
    exact absurd rfl hheader
  | cons first rest =>
    have hfirst := header_of_scan (by rw [hscan, List.map_cons]) h
    unfold Sheet.read at h
    rw [hscan] at h
    obtain ⟨names, -, rfl⟩ := map_eq_ok.1 h
    refine ⟨rest.map Record.fields, ?_, by simp⟩
    rw [List.map_cons, encodeFields_of_decode hfirst]

/-- A line without fields is read as an empty field. -/
theorem header_of_empty (h : d ≠ lineFeed) {text : Bytes} {sheet : Sheet}
    (hread : Sheet.read d (writeLine d [] ++ text) = .ok sheet) : sheet.header ≠ [] := by
  have hunmarked : Unmarked (writeLine d [] ++ text) := by
    intro rest hrest
    exact absurd (List.cons.inj hrest).1 (by decide)
  have hscan := (scan_fields hunmarked).trans (fieldsFrom_empty h text)
  intro hnil
  have hfirst := encodeFields_of_decode (header_of_scan hscan hread)
  rw [hnil] at hfirst
  cases hfirst

/-- A line begins with the mark of its first name, unless the name is quoted. -/
theorem writeLine_marked {name : String} (names : List String)
    (hmark : name.toList.head? = some mark)
    (hplain : ∀ b ∈ Utf8.encode name, needsQuotes d b = false) :
    ∃ rest, writeLine d (name :: names) = 0xEF :: 0xBB :: 0xBF :: rest := by
  obtain ⟨more, hmore, -⟩ := line_cons d (Utf8.encode name) (encodeFields names)
  have hcons : encodeFields (name :: names) = Utf8.encode name :: encodeFields names := rfl
  have hfield : writeField d (Utf8.encode name) = Utf8.encode name := by
    unfold writeField
    rw [if_neg]
    intro hany
    obtain ⟨b, hb, hneeds⟩ := List.any_eq_true.1 hany
    rw [hplain b hb] at hneeds
    cases hneeds
  have hbytes : Utf8.encode name = 0xEF :: 0xBB :: 0xBF :: Utf8.encodeChars name.toList.tail := by
    rw [Utf8.encode, ← List.cons_head?_tail hmark]
    exact congrArg (· ++ Utf8.encodeChars name.toList.tail) encodeChar_mark
  refine ⟨Utf8.encodeChars name.toList.tail ++ more ++ [lineFeed], ?_⟩
  unfold writeLine writeRecord
  rw [hcons, hmore, hfield, hbytes]
  rfl

/-- Lines that begin with a byte order mark are not read back. -/
theorem read_marked_ne (h : Separates d) {name : String} {names : List String}
    (hwidth : ∀ r ∈ records, r.length = (name :: names).length) {rest : Bytes}
    (hmark : writeLine d (name :: names) ++ records.flatMap (writeLine d) =
      0xEF :: 0xBB :: 0xBF :: rest) :
    Sheet.read d (writeLine d (name :: names) ++ records.flatMap (writeLine d)) ≠
      .ok ⟨name :: names, records.map .ok⟩ := by
  intro hread
  obtain ⟨more, hscan, hlength⟩ := scan_of_read hread (List.cons_ne_nil _ _)
  obtain ⟨cs, hcs, hline⟩ := line_marked hmark
  rw [hline, List.cons_append, List.cons_append, List.cons_append, scan_marked, List.append_assoc]
    at hscan
  by_cases hlone : cs = [] ∧ names = []
  · -- the line is passed over, and a record is missing
    obtain ⟨rfl, rfl⟩ := hlone
    have hskip : step d .record lineFeed = .skip .record := rfl
    have hempty : [d].intercalate ((Utf8.encodeChars [] :: encodeFields []).map (writeField d)) =
        [] := rfl
    rw [hempty, List.nil_append, List.singleton_append, fieldsFrom_cons, hskip] at hscan
    dsimp only at hscan
    rw [fieldsFrom_singles h.ne_lineFeed hwidth] at hscan
    have hsame := congrArg List.length hscan
    simp only [List.length_map, List.length_cons] at hsame hlength
    omega
  · -- the first name has lost its mark
    rw [fieldsFrom_begin h.terminator (rest_ne_nil hlone), List.singleton_append,
      fieldsFrom_intercalate h.quote h.ne_lineFeed (List.cons_ne_nil _ _)] at hscan
    have hfirst := (List.cons.inj (List.cons.inj hscan).1).1
    have hlost : String.ofList cs = name := encode_injective (by
      rw [← hfirst, Utf8.encode, String.toList_ofList])
    rw [← hlost, String.toList_ofList] at hcs
    have := congrArg List.length hcs
    simp at this

/-- The lines of a header and of records of its width are read back exactly if the header is
legible. -/
theorem read_lines_iff (h : Separates d) (hwidth : ∀ r ∈ records, r.length = header.length) :
    Sheet.read d (writeLine d header ++ records.flatMap (writeLine d)) =
      .ok ⟨header, records.map .ok⟩ ↔ Legible d header := by
  constructor
  · intro hread
    cases header with
    | nil => exact absurd rfl (header_of_empty h.ne_lineFeed hread)
    | cons name names =>
      refine ⟨name, names, rfl, fun hmark => ?_⟩
      by_contra hnone
      have hplain : ∀ b ∈ Utf8.encode name, needsQuotes d b = false := fun b hb =>
        Bool.eq_false_iff.2 fun hneeds => hnone ⟨b, hb, hneeds⟩
      obtain ⟨rest, hline⟩ := writeLine_marked names hmark hplain
      exact read_marked_ne h hwidth (congrArg (· ++ records.flatMap (writeLine d)) hline) hread
  · intro hlegible
    refine read_lines h ?_ hwidth (hlegible.unmarked _)
    obtain ⟨name, names, rfl, -⟩ := hlegible
    exact List.cons_ne_nil _ _

end Equijoin.Csv
