import Equijoin.Proofs.Text.Records
import Mathlib.Data.Finset.Max

/-! # The header of written lines

A header that has been written need not be read back: its first name may begin with a byte order
mark, which is lost, and delimiters may have another meaning. But a header that is read with the same
names, in any order, does not depend on the lines that follow it.

* `header_of_scan`: the header of a sheet is what is read first.
* `Settles`: what is read first does not depend on what follows.
* `settles_or_grows`: if the delimiter is a quote and the header runs on, it has a longer name.
* `first_cases`: what is read first, for any delimiter that is no line feed.
* `ReadsAs`: a header is read as the line of other fields.
* `Rereads.first_of_line`: what is read first of that line is the header of any such sheet.
* `header_alike`: the header of all sheets with these names.
-/

set_option autoImplicit false

namespace Equijoin.Csv

variable {d : UInt8} {mode : Mode} {field : Bytes} {fields : List Bytes}

theorem decodeFields_place {start place : Position} {index : Nat} {fields : List Bytes}
    {texts : List String} (h : decodeFields start index fields = .ok texts) :
    decodeFields place index fields = .ok texts := by
  induction fields generalizing index texts with
  | nil => exact h
  | cons field fields ih =>
    unfold decodeFields at h ⊢
    split at h
    · cases h
    · obtain ⟨rest, hrest, rfl⟩ := map_eq_ok.1 h
      rw [ih hrest]
      rfl

theorem header_of_scan {text : Bytes} {first : List Bytes} {more : List (List Bytes)} {sheet : Sheet}
    (hscan : (scan d text).map Record.fields = first :: more)
    (hread : Sheet.read d text = .ok sheet) :
    decodeFields .origin 0 first = .ok sheet.header := by
  obtain ⟨header, records, hcons, hfirst, -⟩ := List.map_eq_cons_iff.1 hscan
  unfold Sheet.read at hread
  rw [hcons] at hread
  obtain ⟨names, hnames, rfl⟩ := map_eq_ok.1 hread
  rw [← hfirst]
  exact decodeFields_place hnames

/-! ## Lines that begin with a mark -/

theorem scan_marked (text : Bytes) :
    (scan d (0xEF :: 0xBB :: 0xBF :: text)).map Record.fields = fieldsFrom d .record [] [] text :=
  scanFrom_fields _ _ _ _ _ _

theorem encodeChar_mark : String.utf8EncodeChar mark = [0xEF, 0xBB, 0xBF] := by decide

/-- A line that begins with a mark begins with the mark of its first name. What is left of it is the
line of the same names without the mark. -/
theorem line_marked {name : String} {names : List String} {text rest : Bytes}
    (h : writeLine d (name :: names) ++ text = 0xEF :: 0xBB :: 0xBF :: rest) :
    ∃ cs, name.toList = mark :: cs ∧ writeLine d (name :: names) = 0xEF :: 0xBB :: 0xBF ::
      ([d].intercalate ((Utf8.encodeChars cs :: encodeFields names).map (writeField d)) ++
        [lineFeed]) := by
  obtain ⟨cs, hcs⟩ : ∃ cs, name.toList = mark :: cs := by
    have hmark : name.toList.head? = some mark := by
      by_contra hne
      exact unmarked_writeLine names hne text rest h
    exact ⟨name.toList.tail, (List.cons_head?_tail hmark).symm⟩
  have hcons : encodeFields (name :: names) = Utf8.encode name :: encodeFields names := rfl
  have hbytes : Utf8.encode name = [0xEF, 0xBB, 0xBF] ++ Utf8.encodeChars cs := by
    rw [Utf8.encode, hcs, ← encodeChar_mark]
    rfl
  refine ⟨cs, hcs, ?_⟩
  rcases writeField_cases d (Utf8.encode name) with ⟨bytes, hfield⟩ | ⟨hfield, hplain⟩
  · -- a quoted name begins with a quote
    obtain ⟨more, hmore, -⟩ := line_cons d (Utf8.encode name) (encodeFields names)
    unfold writeLine writeRecord at h
    rw [hcons, hmore, hfield] at h
    exact absurd (List.cons.inj h).1 (by decide)
  have hshort : writeField d (Utf8.encodeChars cs) = Utf8.encodeChars cs := by
    unfold writeField
    rw [if_neg]
    intro hany
    obtain ⟨b, hb, hneeds⟩ := List.any_eq_true.1 hany
    rw [hplain b (by rw [hbytes]; exact List.mem_append_right _ hb)] at hneeds
    cases hneeds
  have hline : [d].intercalate ((encodeFields (name :: names)).map (writeField d)) =
      [0xEF, 0xBB, 0xBF] ++
        [d].intercalate ((Utf8.encodeChars cs :: encodeFields names).map (writeField d)) := by
    rw [hcons, List.map_cons, List.map_cons, hfield, hshort, hbytes]
    cases names with
    | nil => simp [encodeFields]
    | cons next names => simp [encodeFields, List.intercalate_cons_cons]
  unfold writeLine writeRecord
  rw [hline]
  rfl

theorem encodeChars_eq_nil {cs : List Char} (h : Utf8.encodeChars cs = []) : cs = [] := by
  cases cs with
  | nil => rfl
  | cons c cs => exact absurd (List.append_eq_nil_iff.1 h).1 String.utf8EncodeChar_ne_nil

theorem rest_ne_nil {cs : List Char} {names : List String} (h : ¬ (cs = [] ∧ names = [])) :
    [d].intercalate ((Utf8.encodeChars cs :: encodeFields names).map (writeField d)) ≠ [] := by
  intro hnil
  cases names with
  | nil =>
    simp only [encodeFields, List.map_cons, List.map_nil, List.intercalate_singleton] at hnil
    exact h ⟨encodeChars_eq_nil (writeField_eq_nil hnil), rfl⟩
  | cons next names => simp [encodeFields, List.intercalate_cons_cons] at hnil

/-- Of lines that have been written as many are found, unless the first is a mark alone. -/
theorem length_scan_lines (h : Separates d) {header : List String} {records : List (List String)}
    (hne : ∀ r ∈ header :: records, r ≠ []) (hlone : header ≠ [String.ofList [mark]]) :
    (scan d ((header :: records).flatMap (writeLine d))).length = records.length + 1 := by
  have hlines : ∀ rows : List (List String), (∀ r ∈ rows, r ≠ []) →
      fieldsFrom d .record [] [] (rows.flatMap (writeLine d)) = rows.map encodeFields := by
    intro rows hrows
    have hfields : fieldsFrom d .record [] [] ((rows.map encodeFields).flatMap (writeRecord d)) =
        rows.map encodeFields := fieldsFrom_lines h (by simpa [encodeFields])
    rw [List.flatMap_map] at hfields
    exact hfields
  rw [← List.length_map Record.fields]
  by_cases hmarked : ∃ rest,
      (header :: records).flatMap (writeLine d) = 0xEF :: 0xBB :: 0xBF :: rest
  · obtain ⟨rest, hrest⟩ := hmarked
    obtain ⟨name, names, rfl⟩ := List.exists_cons_of_ne_nil (hne header List.mem_cons_self)
    rw [List.flatMap_cons] at hrest ⊢
    obtain ⟨cs, hcs, hline⟩ := line_marked hrest
    have hleft : [d].intercalate ((Utf8.encodeChars cs :: encodeFields names).map (writeField d)) ≠
        [] := by
      apply rest_ne_nil
      rintro ⟨rfl, rfl⟩
      apply hlone
      rw [← hcs, String.ofList_toList]
    -- without the mark it is the line of the same names, the first of them without it
    have hwritten : [d].intercalate
        ((Utf8.encodeChars cs :: encodeFields names).map (writeField d)) ++ [lineFeed] =
        writeRecord d (Utf8.encodeChars cs :: encodeFields names) := by
      unfold writeRecord
      dsimp only
      rw [List.isEmpty_eq_false_iff.2 hleft]
      rfl
    rw [hline, List.cons_append, List.cons_append, List.cons_append, scan_marked, hwritten,
      fieldsFrom_writeRecord h (List.cons_ne_nil _ _),
      hlines records fun r hr => hne r (List.mem_cons_of_mem _ hr)]
    simp
  · rw [scan_fields fun rest hrest => hmarked ⟨rest, hrest⟩, hlines _ hne]
    simp

/-! ## Where the reader stands after a line -/

/-- A record has begun. -/
def Open (mode : Mode) : Prop := mode ≠ .record ∧ mode ≠ .carriage

theorem open_field : Open .field := by unfold Open; decide

theorem open_plain : Open .plain := by unfold Open; decide

theorem open_quoted : Open .quoted := by unfold Open; decide

theorem open_quoteSeen : Open .quoteSeen := by unfold Open; decide

/-- The record that is read does not depend on what follows these bytes. -/
def Settles (d : UInt8) (mode : Mode) (field : Bytes) (fields : List Bytes) (bytes : Bytes) : Prop :=
  ∃ first, ∀ text, ∃ more, fieldsFrom d mode field fields (bytes ++ text) = first :: more

theorem Settles.append {bytes : Bytes} (h : Settles d mode field fields bytes) (more : Bytes) :
    Settles d mode field fields (bytes ++ more) := by
  obtain ⟨first, hfirst⟩ := h
  refine ⟨first, fun text => ?_⟩
  rw [List.append_assoc]
  exact hfirst (more ++ text)

theorem open_of_step {b : UInt8} {next : Mode} (hmode : Open mode)
    (h : step d mode b = .skip next ∨ step d mode b = .copy next) : Open next := by
  have hplain : stepPlain d b = .skip next ∨ stepPlain d b = .copy next → Open next := by
    unfold stepPlain
    intro h
    split at h
    · simp at h
    · split at h
      · simp at h
      · obtain rfl : Mode.plain = next := by simpa using h
        exact open_plain
  cases mode with
  | record => exact absurd rfl hmode.1
  | carriage => exact absurd rfl hmode.2
  | plain => exact hplain h
  | field =>
    simp only [step, stepField] at h
    split at h
    · obtain rfl : Mode.quoted = next := by simpa using h
      exact open_quoted
    · exact hplain h
  | quoted =>
    simp only [step] at h
    split at h
    · obtain rfl : Mode.quoteSeen = next := by simpa using h
      exact open_quoteSeen
    · obtain rfl : Mode.quoted = next := by simpa using h
      exact open_quoted
  | quoteSeen =>
    simp only [step] at h
    split at h
    · obtain rfl : Mode.quoted = next := by simpa using h
      exact open_quoted
    · exact hplain h

/-- After some bytes the record is complete, or still goes on. -/
theorem settles_or_open (hmode : Open mode) (bytes : Bytes) :
    Settles d mode field fields bytes ∨ ∃ mode' field' fields', Open mode' ∧
      ∀ text, fieldsFrom d mode field fields (bytes ++ text) =
        fieldsFrom d mode' field' fields' text := by
  induction bytes generalizing mode field fields with
  | nil => exact .inr ⟨mode, field, fields, hmode, fun _ => rfl⟩
  | cons b bytes ih =>
    unfold Settles
    simp only [List.cons_append, fieldsFrom_cons]
    cases hstep : step d mode b with
    | skip next => exact ih (open_of_step hmode (.inl hstep))
    | copy next => exact ih (open_of_step hmode (.inr hstep))
    | endField => exact ih open_field
    | endRecord next => exact .inl ⟨_, fun text => ⟨_, rfl⟩⟩

/-- What has been read of a record is in the record. -/
theorem fieldsFrom_keeps (hmode : Open mode) {text : Bytes} {first : List Bytes}
    {more : List (List Bytes)} (h : fieldsFrom d mode field fields text = first :: more) :
    (∃ f ∈ first, field.reverse <+: f) ∧ ∀ f ∈ fields, f ∈ first := by
  induction text generalizing mode field fields with
  | nil =>
    have hlast : fieldsFrom d mode field fields [] = [(field.reverse :: fields).reverse] := by
      cases mode with
      | record => exact absurd rfl hmode.1
      | carriage => exact absurd rfl hmode.2
      | _ => rfl
    cases hlast.symm.trans h
    exact ⟨⟨field.reverse, by simp, List.prefix_rfl⟩, fun f hf => by simp [hf]⟩
  | cons b text ih =>
    rw [fieldsFrom_cons] at h
    cases hstep : step d mode b with
    | skip next =>
      rw [hstep] at h
      exact ih (open_of_step hmode (.inl hstep)) h
    | copy next =>
      rw [hstep] at h
      obtain ⟨⟨f, hf, hprefix⟩, hfields⟩ := ih (open_of_step hmode (.inr hstep)) h
      rw [List.reverse_cons] at hprefix
      exact ⟨⟨f, hf, (List.prefix_append _ _).trans hprefix⟩, hfields⟩
    | endField =>
      rw [hstep] at h
      obtain ⟨-, hfields⟩ := ih open_field h
      exact ⟨⟨_, hfields _ List.mem_cons_self, List.prefix_rfl⟩,
        fun f hf => hfields f (List.mem_cons_of_mem _ hf)⟩
    | endRecord next =>
      rw [hstep] at h
      cases h
      exact ⟨⟨field.reverse, by simp, List.prefix_rfl⟩, fun f hf => by simp [hf]⟩

/-- A line feed completes the record, unless it stands between quotes. -/
theorem settles_or_quoted (hd : d ≠ lineFeed) (bytes : Bytes) :
    Settles d .field [] [] (bytes ++ [lineFeed]) ∨ ∃ field fields, ∀ text,
      fieldsFrom d .field [] [] (bytes ++ lineFeed :: text) =
        fieldsFrom d .quoted (lineFeed :: field) fields text := by
  have hcases : Settles d .field [] [] bytes ∨ _ := settles_or_open open_field bytes
  rcases hcases with hsettles | ⟨mode, field, fields, hmode, hopen⟩
  · exact .inl (hsettles.append _)
  · by_cases hquoted : mode = .quoted
    · subst hquoted
      refine .inr ⟨field, fields, fun text => ?_⟩
      have hstep : step d .quoted lineFeed = .copy .quoted := rfl
      rw [hopen, fieldsFrom_cons, hstep]
    · have hcloses : Closes mode := by
        cases mode with
        | record => exact absurd rfl hmode.1
        | carriage => exact absurd rfl hmode.2
        | field => exact .inl rfl
        | plain => exact .inr (.inl rfl)
        | quoteSeen => exact .inr (.inr rfl)
        | quoted => exact absurd rfl hquoted
      refine .inl ⟨fields.reverse ++ [field.reverse], fun text =>
        ⟨fieldsFrom d .record [] [] text, ?_⟩⟩
      rw [List.append_assoc, hopen]
      exact fieldsFrom_lineFeed hd hcloses field fields text

/-! ## Quotes as delimiters -/

/-- The number of bytes of a field from its first line feed on. -/
def overhang (field : Bytes) : Nat := (field.dropWhile (· != lineFeed)).length

theorem lt_overhang {before after f : Bytes} (h : before ++ lineFeed :: after <+: f) :
    after.length < overhang f := by
  obtain ⟨more, rfl⟩ := h
  induction before with
  | nil =>
    have hdrop : overhang (lineFeed :: (after ++ more)) = (after ++ more).length + 1 := rfl
    rw [List.nil_append, List.cons_append, hdrop, List.length_append]
    omega
  | cons b before ih =>
    unfold overhang at ih ⊢
    rw [List.cons_append, List.cons_append, List.dropWhile_cons]
    split
    · exact ih
    · simp only [List.length_cons, List.length_append]
      omega

theorem exists_of_overhang {f : Bytes} (h : overhang f ≠ 0) :
    ∃ before after, f = before ++ lineFeed :: after ∧ overhang f = after.length + 1 := by
  unfold overhang at h ⊢
  cases hdrop : f.dropWhile (· != lineFeed) with
  | nil => exact absurd (by rw [hdrop]; rfl) h
  | cons b after =>
    have hb : b = lineFeed := by
      have hhead := List.head?_dropWhile_not (· != lineFeed) f
      rw [hdrop] at hhead
      simpa using hhead
    subst hb
    refine ⟨f.takeWhile (· != lineFeed), after, ?_, rfl⟩
    rw [← hdrop, List.takeWhile_append_dropWhile]

theorem line_around (d : UInt8) (before : List Bytes) (field : Bytes) (after : List Bytes) :
    ∃ bytes more, [d].intercalate ((before ++ field :: after).map (writeField d)) =
      bytes ++ (writeField d field ++ more) ∧ (more = [] ∨ ∃ rest, more = d :: rest) := by
  induction before with
  | nil =>
    obtain ⟨more, hmore, hrest⟩ := line_cons d field after
    exact ⟨[], more, hmore, hrest.imp_left And.left⟩
  | cons first before ih =>
    obtain ⟨bytes, more, hline, hrest⟩ := ih
    obtain ⟨next, others, hnext⟩ := List.exists_cons_of_ne_nil
      (List.append_ne_nil_of_right_ne_nil before (List.cons_ne_nil field after))
    refine ⟨writeField d first ++ d :: bytes, more, ?_, hrest⟩
    rw [hnext] at hline
    rw [List.cons_append, hnext, List.map_cons, List.map_cons, List.intercalate_cons_cons,
      ← List.map_cons, hline]
    simp

theorem line_at_feed (before : List Bytes) (a b : Bytes) (after : List Bytes) :
    ∃ bytes more, (more = [] ∨ ∃ rest, more = quoteByte :: rest) ∧ ∀ text,
      [quoteByte].intercalate ((before ++ (a ++ lineFeed :: b) :: after).map
        (writeField quoteByte)) ++ lineFeed :: text =
          bytes ++ lineFeed :: (doubleQuotes b ++ quoteByte :: (more ++ lineFeed :: text)) := by
  obtain ⟨bytes, more, hline, hmore⟩ := line_around quoteByte before (a ++ lineFeed :: b) after
  have hneeds : (a ++ lineFeed :: b).any (needsQuotes quoteByte) = true :=
    List.any_eq_true.2 ⟨lineFeed, by simp, by decide⟩
  have hwritten : writeField quoteByte (a ++ lineFeed :: b) = quoteByte :: doubleQuotes a ++
      lineFeed :: (doubleQuotes b ++ [quoteByte]) := by
    unfold writeField
    rw [if_pos hneeds]
    unfold doubleQuotes
    simp [lineFeed, quoteByte]
  refine ⟨bytes ++ quoteByte :: doubleQuotes a, more, hmore, fun text => ?_⟩
  rw [hline, hwritten]
  simp

theorem fieldsFrom_close (b : Bytes) (field : Bytes) (fields : List Bytes) (text : Bytes) :
    fieldsFrom d .quoted field fields (doubleQuotes b ++ quoteByte :: text) =
      fieldsFrom d .quoteSeen (b.reverse ++ field) fields text := by
  have hstep : step d .quoted quoteByte = .skip .quoteSeen := rfl
  rw [fieldsFrom_quoted, fieldsFrom_cons, hstep]

theorem exists_longest {fields : List Bytes} (h : ¬ ∀ n ∈ fields, overhang n = 0) :
    ∃ n ∈ fields, overhang n ≠ 0 ∧ ∀ m ∈ fields, overhang m ≤ overhang n := by
  push Not at h
  obtain ⟨first, hfirst, hpos⟩ := h
  obtain ⟨n, hn, hmax⟩ := fields.toFinset.exists_max_image overhang
    ⟨first, List.mem_toFinset.2 hfirst⟩
  have hmax' : ∀ m ∈ fields, overhang m ≤ overhang n := fun m hm =>
    hmax m (List.mem_toFinset.2 hm)
  refine ⟨n, List.mem_toFinset.1 hn, fun hzero => hpos ?_, hmax'⟩
  exact Nat.le_zero.1 (hzero ▸ hmax' first hfirst)

/-- If quotes are the delimiter, a line is read as a record that does not depend on what follows, or
runs on into a field with a longer overhang than all of its own: a field whose overhang is longest is
taken up with what follows it. -/
theorem settles_or_grows (fields : List Bytes) :
    Settles quoteByte .field [] []
      ([quoteByte].intercalate (fields.map (writeField quoteByte)) ++ [lineFeed]) ∨
    ∀ text first more, fieldsFrom quoteByte .field [] []
        ([quoteByte].intercalate (fields.map (writeField quoteByte)) ++ lineFeed :: text) =
      first :: more → ∃ f ∈ first, ∀ n ∈ fields, overhang n < overhang f := by
  have hd : quoteByte ≠ lineFeed := by decide
  by_cases hnone : ∀ n ∈ fields, overhang n = 0
  · refine (settles_or_quoted hd _).imp_right ?_
    rintro ⟨field, done, hquoted⟩ text first more h
    rw [hquoted] at h
    obtain ⟨⟨f, hf, hprefix⟩, -⟩ := fieldsFrom_keeps open_quoted h
    rw [List.reverse_cons] at hprefix
    refine ⟨f, hf, fun n hn => ?_⟩
    rw [hnone n hn]
    exact Nat.zero_lt_of_lt (lt_overhang hprefix)
  · obtain ⟨n, hn, hpos, hmax⟩ := exists_longest hnone
    obtain ⟨a, b, rfl, hlength⟩ := exists_of_overhang hpos
    obtain ⟨before, after, rfl⟩ := List.append_of_mem hn
    obtain ⟨bytes, rest, hrest, hline⟩ := line_at_feed before a b after
    rcases settles_or_quoted hd bytes with hsettles | ⟨field, done, hquoted⟩
    · refine .inl ?_
      rw [hline, List.append_cons]
      exact hsettles.append _
    · rcases hrest with rfl | ⟨rest, rfl⟩
      · -- the last field is complete
        refine .inl ⟨done.reverse ++ [(b.reverse ++ lineFeed :: field).reverse], fun text =>
          ⟨fieldsFrom quoteByte .record [] [] text, ?_⟩⟩
        rw [List.append_assoc, List.singleton_append, hline, hquoted, fieldsFrom_close]
        exact fieldsFrom_lineFeed hd (.inr (.inr rfl)) _ _ _
      · -- the delimiter after the field doubles its closing quote
        refine .inr fun text first more h => ?_
        have hstep : step quoteByte .quoteSeen quoteByte = .copy .quoted := rfl
        rw [hline, hquoted, fieldsFrom_close, List.cons_append, fieldsFrom_cons, hstep] at h
        obtain ⟨⟨f, hf, hprefix⟩, -⟩ := fieldsFrom_keeps open_quoted h
        have hreverse : (quoteByte :: (b.reverse ++ lineFeed :: field)).reverse =
            field.reverse ++ lineFeed :: (b ++ [quoteByte]) := by simp
        rw [hreverse] at hprefix
        have hgrows := lt_overhang hprefix
        rw [List.length_append, List.length_singleton] at hgrows
        exact ⟨f, hf, fun m hm => (hmax m hm).trans_lt (hlength ▸ hgrows)⟩

/-! ## Lines that begin with a field -/

theorem head_writeField {f more rest : Bytes} {b : UInt8} (hf : f ≠ [])
    (h : writeField d f ++ more = b :: rest) : isTerminator b = false := by
  rcases writeField_cases d f with ⟨bytes, hfield⟩ | ⟨hfield, hplain⟩
  · rw [hfield] at h
    cases h
    decide
  · obtain ⟨b', bytes, rfl⟩ := List.exists_cons_of_ne_nil hf
    rw [hfield] at h
    cases h
    have hb := hplain b List.mem_cons_self
    simp only [needsQuotes, Bool.or_eq_false_iff] at hb
    exact hb.2

theorem fieldsFrom_first {f : Bytes} (hf : f ≠ []) (more : Bytes) :
    fieldsFrom d .record [] [] (writeField d f ++ more) =
      fieldsFrom d .field [] [] (writeField d f ++ more) := by
  cases hbytes : writeField d f ++ more with
  | nil => exact absurd (writeField_eq_nil (List.append_eq_nil_iff.1 hbytes).1) hf
  | cons b rest => exact fieldsFrom_start (head_writeField hf hbytes) [] [] rest

/-- A line with a first field that is not empty is read back, unless quotes are the delimiter. -/
theorem fieldsFrom_line (hquote : d ≠ quoteByte) (hd : d ≠ lineFeed) {f : Bytes} (hf : f ≠ [])
    (fs : List Bytes) (text : Bytes) : fieldsFrom d .record [] []
        ([d].intercalate ((f :: fs).map (writeField d)) ++ lineFeed :: text) =
      (f :: fs) :: fieldsFrom d .record [] [] text := by
  obtain ⟨more, hmore, -⟩ := line_cons d f fs
  have hrecord := fieldsFrom_intercalate hquote hd (List.cons_ne_nil f fs) [] text
  rw [hmore, List.append_assoc] at hrecord ⊢
  rw [fieldsFrom_first hf, hrecord]
  rfl

theorem fieldsFrom_single (hd : d ≠ lineFeed) (f text : Bytes) :
    fieldsFrom d .record [] [] (writeRecord d [f] ++ text) =
      [f] :: fieldsFrom d .record [] [] text := by
  by_cases hf : f = []
  · subst hf
    exact fieldsFrom_empty hd text
  · have hwritten : writeRecord d [f] = writeField d f ++ [lineFeed] := by
      have hne : (writeField d f).isEmpty = false :=
        List.isEmpty_eq_false_iff.2 fun hnil => hf (writeField_eq_nil hnil)
      unfold writeRecord
      simp [hne]
    obtain ⟨mode, hmode, hfield⟩ := fieldsFrom_writeField (d := d) f [] (lineFeed :: text)
    rw [hwritten, List.append_assoc, fieldsFrom_first hf, List.singleton_append, hfield,
      fieldsFrom_lineFeed hd hmode, List.reverse_reverse]
    rfl

/-! ## Carriage returns as delimiters -/

theorem fieldsFrom_blank {fields : List Bytes} (h : ∀ f ∈ fields, f = []) (text : Bytes) :
    fieldsFrom carriageReturn .record [] []
        ([carriageReturn].intercalate (fields.map (writeField carriageReturn)) ++
          lineFeed :: text) = fieldsFrom carriageReturn .record [] [] text := by
  have hskip : step carriageReturn .record lineFeed = .skip .record := rfl
  have hskip' : step carriageReturn .record carriageReturn = .skip .record := rfl
  induction fields with
  | nil => rw [List.map_nil, List.intercalate_nil, List.nil_append, fieldsFrom_cons, hskip]
  | cons f fields ih =>
    obtain rfl := h f List.mem_cons_self
    cases fields with
    | nil =>
      show fieldsFrom carriageReturn .record [] [] (lineFeed :: text) = _
      rw [fieldsFrom_cons, hskip]
    | cons next fields =>
      rw [List.map_cons, List.map_cons, List.intercalate_cons_cons, ← List.map_cons]
      show fieldsFrom carriageReturn .record [] [] (carriageReturn :: _) = _
      rw [fieldsFrom_cons, hskip']
      exact ih fun f hf => h f (List.mem_cons_of_mem _ hf)

/-- A line of other fields is read without the empty ones at its front. -/
theorem fieldsFrom_kept {fields : List Bytes} (h : ∃ f ∈ fields, f ≠ []) :
    ∃ first, (∃ f ∈ first, f ≠ []) ∧ first <:+ fields ∧ ∀ text,
      fieldsFrom carriageReturn .record [] []
        ([carriageReturn].intercalate (fields.map (writeField carriageReturn)) ++
          lineFeed :: text) = first :: fieldsFrom carriageReturn .record [] [] text := by
  have hskip : step carriageReturn .record carriageReturn = .skip .record := rfl
  induction fields with
  | nil =>
    obtain ⟨f, hf, -⟩ := h
    cases hf
  | cons f fields ih =>
    by_cases hf : f = []
    · subst hf
      obtain ⟨g, hg, hne⟩ := h
      obtain hg : g ∈ fields := (List.mem_cons.1 hg).resolve_left hne
      obtain ⟨first, hfirst, hsuffix, hrest⟩ := ih ⟨g, hg, hne⟩
      obtain ⟨next, others, rfl⟩ := List.exists_cons_of_ne_nil (List.ne_nil_of_mem hg)
      refine ⟨first, hfirst, hsuffix.trans (List.suffix_cons _ _), fun text => ?_⟩
      rw [List.map_cons, List.map_cons, List.intercalate_cons_cons, ← List.map_cons]
      show fieldsFrom carriageReturn .record [] [] (carriageReturn :: _) = _
      rw [fieldsFrom_cons, hskip]
      exact hrest text
    · exact ⟨f :: fields, ⟨f, List.mem_cons_self, hf⟩, List.suffix_rfl, fun text =>
        fieldsFrom_line (by decide) (by decide) hf fields text⟩

/-! ## What is read first -/

/-- A line begins with its first field, unless its delimiter is passed over. -/
theorem fieldsFrom_begin (h : isTerminator d = false) {fields : List Bytes}
    (hne : [d].intercalate (fields.map (writeField d)) ≠ []) (text : Bytes) :
    fieldsFrom d .record [] [] ([d].intercalate (fields.map (writeField d)) ++ text) =
      fieldsFrom d .field [] [] ([d].intercalate (fields.map (writeField d)) ++ text) := by
  obtain ⟨b, rest, hline⟩ := List.exists_cons_of_ne_nil hne
  rw [hline]
  exact fieldsFrom_start (head_line h hline) [] [] (rest ++ text)

/-- A line is read as a record that does not depend on what follows, or it is passed over, or it
runs on. -/
theorem first_cases (hd : d ≠ lineFeed) {fields : List Bytes}
    (hne : [d].intercalate (fields.map (writeField d)) ≠ []) :
    Settles d .record [] [] ([d].intercalate (fields.map (writeField d)) ++ [lineFeed]) ∨
    (d = carriageReturn ∧ ∀ f ∈ fields, f = []) ∨
    ∀ text first more, fieldsFrom d .record [] []
        ([d].intercalate (fields.map (writeField d)) ++ lineFeed :: text) = first :: more →
      ∃ f ∈ first, ∀ n ∈ fields, overhang n < overhang f := by
  by_cases hquote : d = quoteByte
  · subst hquote
    rcases settles_or_grows fields with ⟨first, hfirst⟩ | hgrows
    · refine .inl ⟨first, fun text => ?_⟩
      rw [List.append_assoc, fieldsFrom_begin (by decide) hne, ← List.append_assoc]
      exact hfirst text
    · refine .inr (.inr fun text first more h => hgrows text first more ?_)
      rwa [fieldsFrom_begin (by decide) hne] at h
  by_cases hreturn : d = carriageReturn
  · subst hreturn
    by_cases hblank : ∀ f ∈ fields, f = []
    · exact .inr (.inl ⟨rfl, hblank⟩)
    · push Not at hblank
      obtain ⟨first, -, -, hfirst⟩ := fieldsFrom_kept hblank
      refine .inl ⟨first, fun text => ⟨fieldsFrom carriageReturn .record [] [] text, ?_⟩⟩
      rw [List.append_assoc]
      exact hfirst text
  · have hterminator : isTerminator d = false := by
      simp [isTerminator, hd, hreturn]
    have hfields : fields ≠ [] := by
      rintro rfl
      exact hne rfl
    refine .inl ⟨fields, fun text => ⟨fieldsFrom d .record [] [] text, ?_⟩⟩
    rw [List.append_assoc, fieldsFrom_begin hterminator hne, List.singleton_append,
      fieldsFrom_intercalate hquote hd hfields]
    rfl

theorem encode_injective : Function.Injective Utf8.encode := fun a b hab =>
  Except.ok.inj ((Utf8.decode_encode a).symm.trans
    ((congrArg Utf8.decode hab).trans (Utf8.decode_encode b)))

theorem encodeFields_of_decode {start : Position} {index : Nat} {fields : List Bytes}
    {texts : List String} (h : decodeFields start index fields = .ok texts) :
    encodeFields texts = fields := by
  induction fields generalizing index texts with
  | nil =>
    cases h
    rfl
  | cons field fields ih =>
    unfold decodeFields at h
    split at h
    · cases h
    · rename_i text htext
      obtain ⟨rest, hrest, rfl⟩ := map_eq_ok.1 h
      rw [encodeFields, List.map_cons, Utf8.encode_of_decode htext, ← ih hrest]
      rfl

/-- A sheet of a written header and written records that has the names of this header, in any
order. -/
structure Rereads (d : UInt8) (header : List String) (records : List (List String))
    (sheet : Sheet) : Prop where
  width : ∀ r ∈ records, r.length = header.length
  read : Sheet.read d (writeLine d header ++ records.flatMap (writeLine d)) = .ok sheet
  names : ∀ name, name ∈ sheet.header ↔ name ∈ header

variable {header : List String} {records : List (List String)} {sheet : Sheet}

theorem Rereads.first (h : Rereads d header records sheet) (hheader : header ≠ []) :
    ∃ more, (scan d (writeLine d header ++ records.flatMap (writeLine d))).map Record.fields =
      encodeFields sheet.header :: more := by
  cases hscan : (scan d (writeLine d header ++ records.flatMap (writeLine d))).map
      Record.fields with
  | nil =>
    -- without a record there is no header, and the names are missing
    have hread := h.read
    unfold Sheet.read at hread
    rw [List.map_eq_nil_iff.1 hscan] at hread
    cases hread
    obtain ⟨name, names, rfl⟩ := List.exists_cons_of_ne_nil hheader
    exact absurd ((h.names name).2 List.mem_cons_self) List.not_mem_nil
  | cons first more =>
    rw [encodeFields_of_decode (header_of_scan hscan h.read)]
    exact ⟨more, rfl⟩

/-- The line of the names is read as the line of so many fields, which is not empty. -/
structure ReadsAs (d : UInt8) (header : List String) (fields : List Bytes) : Prop where
  width : fields.length = header.length
  line : [d].intercalate (fields.map (writeField d)) ≠ []
  scan : ∀ text, (scan d (writeLine d header ++ text)).map Record.fields =
    fieldsFrom d .record [] []
      ([d].intercalate (fields.map (writeField d)) ++ lineFeed :: text)
  overhang : ∀ n ∈ encodeFields header, ∃ m ∈ fields, overhang n ≤ overhang m

theorem ReadsAs.header_ne_nil {fields : List Bytes} (h : ReadsAs d header fields) :
    header ≠ [] := by
  rintro rfl
  exact h.line (by rw [List.eq_nil_of_length_eq_zero h.width]; rfl)

/-- What is read first of the line, unless that is passed over, is the header of every sheet with
its names: a line that runs on has a longer name. -/
theorem Rereads.first_of_line (h : Rereads d header records sheet) (hd : d ≠ lineFeed)
    {fields : List Bytes} (hline : ReadsAs d header fields) :
    (∀ text, ∃ more, fieldsFrom d .record [] []
        ([d].intercalate (fields.map (writeField d)) ++ lineFeed :: text) =
      encodeFields sheet.header :: more) ∨ d = carriageReturn ∧ ∀ f ∈ fields, f = [] := by
  obtain ⟨more, hmore⟩ := h.first hline.header_ne_nil
  rw [hline.scan] at hmore
  rcases first_cases hd hline.line with ⟨first, hfirst⟩ | hlost | hgrows
  · simp only [List.append_assoc, List.singleton_append] at hfirst
    obtain ⟨more', hmore'⟩ := hfirst (records.flatMap (writeLine d))
    rw [(List.cons.inj (hmore.symm.trans hmore')).1]
    exact .inl hfirst
  · exact .inr hlost
  · obtain ⟨f, hf, hlonger⟩ := hgrows _ _ _ hmore
    obtain ⟨name, hname, rfl⟩ := List.mem_map.1 hf
    obtain ⟨m, hm, hle⟩ := hline.overhang (Utf8.encode name)
      (List.mem_map_of_mem ((h.names name).1 hname))
    exact absurd (hlonger m hm) (Nat.not_lt.2 hle)

/-- The header of all sheets of a header that is read from a line, unless that is passed over. -/
theorem alike_of_line (hd : d ≠ lineFeed) {fields : List Bytes} (hline : ReadsAs d header fields) :
    (∃ columns, ∀ records sheet, Rereads d header records sheet → sheet.header = columns) ∨
      d = carriageReturn ∧ ∀ f ∈ fields, f = [] := by
  by_cases hany : ∃ records sheet, Rereads d header records sheet
  · obtain ⟨records, sheet, h⟩ := hany
    refine (h.first_of_line hd hline).imp_left fun hfirst => ⟨sheet.header, ?_⟩
    intro records' sheet' h'
    obtain ⟨more, hmore⟩ := h'.first hline.header_ne_nil
    obtain ⟨more', hmore'⟩ := hfirst (records'.flatMap (writeLine d))
    rw [hline.scan] at hmore
    exact encode_injective.list_map (List.cons.inj (hmore.symm.trans hmore')).1
  · exact .inl ⟨[], fun records sheet h => absurd ⟨records, sheet, h⟩ hany⟩

/-! ## The header of a sheet -/

theorem writeLine_several {names : List String} (h : 2 ≤ names.length) :
    [d].intercalate ((encodeFields names).map (writeField d)) ≠ [] ∧
      writeLine d names = [d].intercalate ((encodeFields names).map (writeField d)) ++
        [lineFeed] := by
  have hne : [d].intercalate ((encodeFields names).map (writeField d)) ≠ [] := by
    match names, h with
    | first :: next :: names, _ => simp [encodeFields, List.intercalate_cons_cons]
  refine ⟨hne, ?_⟩
  unfold writeLine writeRecord
  dsimp only
  rw [List.isEmpty_eq_false_iff.2 hne]
  rfl

theorem fieldsFrom_singles (hd : d ≠ lineFeed) (hwidth : ∀ r ∈ records, r.length = 1) :
    fieldsFrom d .record [] [] (records.flatMap (writeLine d)) = records.map encodeFields := by
  induction records with
  | nil => rfl
  | cons r records ih =>
    obtain ⟨cell, rfl⟩ := List.length_eq_one_iff.1 (hwidth r List.mem_cons_self)
    rw [List.flatMap_cons, List.map_cons, ← ih fun r hr => hwidth r (List.mem_cons_of_mem _ hr)]
    exact fieldsFrom_single hd (Utf8.encode cell) _

/-- What is read first of lines of several fields is the end of a line, with a field that is not
empty, as other lines are passed over. -/
theorem exists_of_several (hwidth : ∀ r ∈ records, 2 ≤ r.length) {first : List Bytes}
    {more : List (List Bytes)} (h : fieldsFrom carriageReturn .record [] []
      (records.flatMap (writeLine carriageReturn)) = first :: more) :
    (∃ f ∈ first, f ≠ []) ∧ ∃ r ∈ records, first <:+ encodeFields r := by
  induction records with
  | nil => cases h
  | cons r records ih =>
    have hline := (writeLine_several (d := carriageReturn) (hwidth r List.mem_cons_self)).2
    rw [List.flatMap_cons, hline, List.append_assoc, List.singleton_append] at h
    by_cases hblank : ∀ f ∈ encodeFields r, f = []
    · rw [fieldsFrom_blank hblank] at h
      obtain ⟨hkept, r', hr', hsuffix⟩ :=
        ih (fun r hr => hwidth r (List.mem_cons_of_mem _ hr)) h
      exact ⟨hkept, r', List.mem_cons_of_mem _ hr', hsuffix⟩
    · push Not at hblank
      obtain ⟨kept, hkept, hsuffix, hrest⟩ := fieldsFrom_kept hblank
      rw [hrest] at h
      cases h
      exact ⟨hkept, r, List.mem_cons_self, hsuffix⟩

theorem readsAs_unmarked (hseveral : 2 ≤ header.length)
    (hunmarked : ∀ text, Unmarked (writeLine d header ++ text)) :
    ReadsAs d header (encodeFields header) := by
  obtain ⟨hne, hline⟩ := writeLine_several (d := d) hseveral
  refine ⟨List.length_map _, hne, fun text => ?_, fun n hn => ⟨n, hn, le_rfl⟩⟩
  rw [scan_fields (hunmarked text), hline, List.append_assoc]
  rfl

theorem Rereads.header_single {name : String} (h : Rereads d [name] records sheet)
    (hd : d ≠ lineFeed)
    (hunmarked : Unmarked (writeLine d [name] ++ records.flatMap (writeLine d))) :
    sheet.header = [name] := by
  obtain ⟨more, hmore⟩ := h.first (List.cons_ne_nil _ _)
  have hsingle := fieldsFrom_single hd (Utf8.encode name) (records.flatMap (writeLine d))
  rw [scan_fields hunmarked] at hmore
  exact encode_injective.list_map (List.cons.inj (hmore.symm.trans hsingle)).1

theorem alike_unmarked (hd : d ≠ lineFeed) (hheader : header ≠ [])
    (hunmarked : ∀ text, Unmarked (writeLine d header ++ text)) :
    ∃ columns, ∀ records sheet, Rereads d header records sheet → sheet.header = columns := by
  by_cases hone : header.length = 1
  · obtain ⟨name, rfl⟩ := List.length_eq_one_iff.1 hone
    exact ⟨[name], fun records sheet h => h.header_single hd (hunmarked _)⟩
  · have hseveral : 2 ≤ header.length := by
      have := List.length_pos_iff.2 hheader
      omega
    have hline := readsAs_unmarked hseveral hunmarked
    rcases alike_of_line hd hline with halike | ⟨rfl, hblank⟩
    · exact halike
    · -- no name is anything but empty, but what is read has such a name
      refine ⟨[], fun records sheet h => ?_⟩
      obtain ⟨more, hmore⟩ := h.first hheader
      rw [hline.scan, fieldsFrom_blank hblank] at hmore
      obtain ⟨⟨f, hf, hnonempty⟩, -⟩ := exists_of_several
        (fun r hr => by rw [h.width r hr]; exact hseveral) hmore
      obtain ⟨name, hname, rfl⟩ := List.mem_map.1 hf
      exact absurd (hblank _ (List.mem_map_of_mem ((h.names name).1 hname))) hnonempty

/-- A header that is a mark alone is lost, and one of the records takes its place. -/
theorem alike_lone (hd : d ≠ lineFeed) {name : String}
    (hlost : ∀ text, (scan d (writeLine d [name] ++ text)).map Record.fields =
      fieldsFrom d .record [] [] (lineFeed :: text)) (h : Rereads d [name] records sheet) :
    sheet.header = [name] := by
  obtain ⟨more, hmore⟩ := h.first (List.cons_ne_nil _ _)
  have hskip : step d .record lineFeed = .skip .record := rfl
  rw [hlost, fieldsFrom_cons, hskip] at hmore
  dsimp only at hmore
  rw [fieldsFrom_singles hd h.width] at hmore
  obtain ⟨r, hr, heq⟩ := List.mem_map.1 (hmore ▸ List.mem_cons_self)
  have hsame : sheet.header = r := encode_injective.list_map heq.symm
  obtain ⟨only, honly⟩ := List.length_eq_one_iff.1 (h.width r hr)
  rw [hsame, honly, List.cons_eq_cons, and_iff_left rfl]
  have hmem := (h.names only).1 (by rw [hsame, honly]; exact List.mem_singleton_self only)
  exact List.mem_singleton.1 hmem

/-- A line that begins with a mark is read as the line of the same names without it. -/
theorem readsAs_marked {name : String} {names : List String} {text rest : Bytes}
    (htext : writeLine d (name :: names) ++ text = 0xEF :: 0xBB :: 0xBF :: rest) :
    ∃ cs, (cs = [] → name = String.ofList [mark]) ∧
      (∀ text, (scan d (writeLine d (name :: names) ++ text)).map Record.fields =
        fieldsFrom d .record [] [] ([d].intercalate
          ((Utf8.encodeChars cs :: encodeFields names).map (writeField d)) ++ lineFeed :: text)) ∧
      (¬ (cs = [] ∧ names = []) →
        ReadsAs d (name :: names) (Utf8.encodeChars cs :: encodeFields names)) := by
  obtain ⟨cs, hcs, hline⟩ := line_marked htext
  have hscan : ∀ text, (scan d (writeLine d (name :: names) ++ text)).map Record.fields =
      fieldsFrom d .record [] [] ([d].intercalate
        ((Utf8.encodeChars cs :: encodeFields names).map (writeField d)) ++ lineFeed :: text) := by
    intro text
    rw [hline, List.cons_append, List.cons_append, List.cons_append, List.append_assoc, scan_marked]
    rfl
  refine ⟨cs, ?_, hscan, fun hlone => ⟨?_, rest_ne_nil hlone, hscan, ?_⟩⟩
  · rintro rfl
    rw [← hcs, String.ofList_toList]
  · simp [encodeFields]
  · intro n hn
    rcases List.mem_cons.1 hn with rfl | hn
    · refine ⟨_, List.mem_cons_self, ?_⟩
      have hbytes : Utf8.encode name = 0xEF :: 0xBB :: 0xBF :: Utf8.encodeChars cs := by
        rw [Utf8.encode, hcs]
        exact congrArg (· ++ Utf8.encodeChars cs) encodeChar_mark
      rw [hbytes]
      exact le_rfl
    · exact ⟨n, List.mem_cons_of_mem _ hn, le_rfl⟩

theorem alike_marked (hd : d ≠ lineFeed) {name : String} {names : List String} {text rest : Bytes}
    (htext : writeLine d (name :: names) ++ text = 0xEF :: 0xBB :: 0xBF :: rest)
    (hmark : d = carriageReturn →
      ¬ (String.ofList [mark] ∈ name :: names ∧ "" ∈ name :: names)) :
    ∃ columns, ∀ records sheet, Rereads d (name :: names) records sheet →
      sheet.header = columns := by
  obtain ⟨cs, hname, hscan, hline⟩ := readsAs_marked htext
  by_cases hlone : cs = [] ∧ names = []
  · obtain ⟨rfl, rfl⟩ := hlone
    exact ⟨[name], fun records sheet h => alike_lone hd hscan h⟩
  · rcases alike_of_line hd (hline hlone) with halike | ⟨hd', hblank⟩
    · exact halike
    · -- all names but the mark are empty
      have hcs' : cs = [] := encodeChars_eq_nil (hblank _ List.mem_cons_self)
      obtain ⟨other, names, rfl⟩ := List.exists_cons_of_ne_nil fun hnil => hlone ⟨hcs', hnil⟩
      have hother : other = "" := encode_injective
        ((hblank _ (List.mem_cons_of_mem _ List.mem_cons_self)).trans rfl)
      exact absurd ⟨by simp [hname hcs'], by simp [hother]⟩ (hmark hd')

/-- A header that is read with the same names does not depend on the records below it. Only line
feeds are excluded as delimiters, and carriage returns if a name is a mark, which is lost, and
another one is empty and then passed over. -/
theorem header_alike (hd : d ≠ lineFeed) (hheader : header ≠ [])
    (hmark : d = carriageReturn → ¬ (String.ofList [mark] ∈ header ∧ "" ∈ header)) :
    ∃ columns, ∀ records sheet, Rereads d header records sheet → sheet.header = columns := by
  obtain ⟨name, names, rfl⟩ := List.exists_cons_of_ne_nil hheader
  by_cases hmarked : ∃ text rest,
      writeLine d (name :: names) ++ text = 0xEF :: 0xBB :: 0xBF :: rest
  · obtain ⟨text, rest, htext⟩ := hmarked
    exact alike_marked hd htext hmark
  · exact alike_unmarked hd hheader fun text rest htext => hmarked ⟨text, rest, htext⟩

end Equijoin.Csv
