import Equijoin.Proofs.Text.Headers
import Equijoin.Proofs.Tasks.Footing
import Equijoin.Run
import Mathlib.Data.List.Find

/-! # The delimiter of a text

The delimiter that is found in the first two lines of a text is the first one with which these lines
are read as records of several fields and of the same width.

* `Utf8.Legal`: the bytes of a text, and where they may be cut.
* `Csv.IsLine`, `Csv.PlainLine`: lines, and those where quotes and carriage returns do not matter.
* `Csv.fieldsFrom_body`: a line without quotes is split at its delimiters.
* `Delimiter.suits`: the reader finds two records of several fields and the same width.
* `Delimiter.suits_eq`: this is a matter of how often the delimiter stands in both lines.
* `sniff_agrees`: what is found is what suits the reader.
-/

set_option autoImplicit false

namespace Equijoin

/-! ## The bytes of texts -/

namespace Utf8

/-- The bytes are those of a text. -/
def Legal (bytes : Bytes) : Prop := ∃ cs, encodeChars cs = bytes

variable {x y : Bytes} {b : UInt8} {c : Char}

theorem legal_nil : Legal [] := ⟨[], rfl⟩

theorem legal_of_decode {s : String} (h : decode x = .ok s) : Legal x :=
  ⟨s.toList, encode_of_decode h⟩

theorem Legal.exists_encode (h : Legal x) : ∃ s, encode s = x := by
  obtain ⟨cs, hcs⟩ := h
  exact ⟨String.ofList cs, by rw [encode, String.toList_ofList, hcs]⟩

theorem Legal.exists_decode (h : Legal x) : ∃ s, decode x = .ok s := by
  obtain ⟨s, rfl⟩ := h.exists_encode
  exact ⟨s, decode_encode s⟩

theorem Legal.append (hx : Legal x) (hy : Legal y) : Legal (x ++ y) := by
  obtain ⟨cs, rfl⟩ := hx
  obtain ⟨ds, rfl⟩ := hy
  exact ⟨cs ++ ds, List.flatMap_append⟩

theorem legal_ascii (h : b < 0x80) : Legal [b] :=
  ⟨[Char.ofNat b.toNat], by rw [encodeChars, List.flatMap_singleton, encodeChar_one h]⟩

/-- A byte below 128 among those of a character is the only one. -/
theorem encodeChar_of_mem (h : b < 0x80) (hmem : b ∈ String.utf8EncodeChar c) :
    String.utf8EncodeChar c = [b] := by
  have hhigh : ∀ n, 128 ≤ n → n < 256 → b ≠ UInt8.ofNat n := by
    rintro n hn hn' rfl
    rw [UInt8.lt_iff_toNat_lt, toNat_byte hn'] at h
    have : (0x80 : UInt8).toNat = 128 := rfl
    omega
  have hvalue := toNat_bounds c
  unfold String.utf8EncodeChar at hmem ⊢
  dsimp only at hmem ⊢
  split at hmem
  · rename_i hsmall
    rw [List.mem_singleton] at hmem
    rw [if_pos hsmall, hmem]
  · split at hmem
    all_goals try split at hmem
    all_goals
      exfalso
      simp only [List.mem_cons, List.not_mem_nil, or_false] at hmem
    · rcases hmem with hmem | hmem
      · exact hhigh _ (by omega) (by omega) hmem
      · exact hhigh _ (by omega) (by omega) hmem
    · rcases hmem with hmem | hmem | hmem
      · exact hhigh _ (by omega) (by omega) hmem
      · exact hhigh _ (by omega) (by omega) hmem
      · exact hhigh _ (by omega) (by omega) hmem
    · rcases hmem with hmem | hmem | hmem | hmem
      · exact hhigh _ (by omega) (by omega) hmem
      · exact hhigh _ (by omega) (by omega) hmem
      · exact hhigh _ (by omega) (by omega) hmem
      · exact hhigh _ (by omega) (by omega) hmem

/-- A text may be cut around every byte below 128, as that is a character of its own. -/
theorem Legal.cut (hb : b < 0x80) (h : Legal (x ++ b :: y)) : Legal x ∧ Legal y := by
  obtain ⟨cs, hcs⟩ := h
  induction cs generalizing x with
  | nil =>
    have hlength := congrArg List.length hcs
    simp [encodeChars] at hlength
  | cons c cs ih =>
    have hcons : encodeChars (c :: cs) = String.utf8EncodeChar c ++ encodeChars cs := rfl
    rw [hcons] at hcs
    rcases List.append_eq_append_iff.1 hcs with ⟨more, rfl, hrest⟩ | ⟨more, hchar, hrest⟩
    · obtain ⟨hleft, hright⟩ := ih hrest
      have hfirst : Legal (String.utf8EncodeChar c) := ⟨[c], List.flatMap_singleton _ _⟩
      exact ⟨hfirst.append hleft, hright⟩
    · cases more with
      | nil =>
        rw [List.append_nil] at hchar
        obtain ⟨hleft, hright⟩ := ih (x := []) hrest.symm
        have hfirst : Legal (String.utf8EncodeChar c) := ⟨[c], List.flatMap_singleton _ _⟩
        exact ⟨hchar ▸ hfirst, hright⟩
      | cons b' more =>
        -- the byte is one of the character, and so the whole character
        obtain ⟨rfl, rfl⟩ := List.cons.inj hrest
        have hone := encodeChar_of_mem hb (c := c) (by rw [hchar]; simp)
        rw [hone] at hchar
        cases x with
        | nil =>
          cases hchar
          exact ⟨legal_nil, cs, rfl⟩
        | cons a x => simp at hchar

/-- The pieces of a text that is cut at a byte below 128 are texts. -/
theorem Legal.pieces (hb : b < 0x80) {ps : List Bytes} (h : Legal ([b].intercalate ps)) :
    ∃ names : List String, Csv.encodeFields names = ps := by
  induction ps with
  | nil => exact ⟨[], rfl⟩
  | cons p ps ih =>
    cases ps with
    | nil =>
      rw [List.intercalate_singleton] at h
      obtain ⟨name, hname⟩ := h.exists_encode
      exact ⟨[name], congrArg ([·]) hname⟩
    | cons q ps =>
      rw [List.intercalate_cons_cons, List.append_assoc, List.singleton_append] at h
      obtain ⟨hleft, hright⟩ := h.cut hb
      obtain ⟨name, hname⟩ := hleft.exists_encode
      obtain ⟨names, hnames⟩ := ih hright
      refine ⟨name :: names, ?_⟩
      rw [← hname, ← hnames]
      rfl

end Utf8

namespace Csv

/-! ## Lines -/

/-- The line is the first one of a text, with its line feed, and the rest comes after it. -/
def IsLine (line rest text : Bytes) : Prop :=
  text = line ++ rest ∧
    ((∃ body, line = body ++ [lineFeed] ∧ lineFeed ∉ body) ∨ lineFeed ∉ line ∧ rest = [])

/-- A line without quotes, in which a carriage return stands right before the line feed only. -/
structure PlainLine (line : Bytes) : Prop where
  unquoted : quoteByte ∉ line
  carriage : ∀ before after, line = before ++ carriageReturn :: after → after = [lineFeed]

/-- A text without the byte order mark at its start. -/
def dropMark (text : Bytes) : Bytes :=
  match text with
  | 0xEF :: 0xBB :: 0xBF :: rest => rest
  | text => text

/-- Bytes of fields and delimiters, neither quotes nor ends of records. -/
def Inner (body : Bytes) : Prop := ∀ b ∈ body, b ≠ quoteByte ∧ isTerminator b = false

/-- The end of a line before the rest of a text. -/
def Ends (ending rest : Bytes) : Prop :=
  ending = [lineFeed] ∨ ending = [carriageReturn, lineFeed] ∨ ending = [] ∧ rest = []

variable {d : UInt8} {line rest text body ending : Bytes}

theorem Ends.terminators (h : Ends ending rest) : ∀ b ∈ ending, isTerminator b = true := by
  have hall : ending.all isTerminator = true := by
    rcases h with rfl | rfl | ⟨rfl, -⟩
    · decide
    · decide
    · rfl
  exact List.all_eq_true.1 hall

theorem isTerminator_iff {b : UInt8} :
    isTerminator b = true ↔ b = carriageReturn ∨ b = lineFeed := by
  unfold isTerminator
  rw [Bool.or_eq_true, beq_iff_eq, beq_iff_eq]

/-- A line is what it holds and its end. -/
theorem exists_body (h : IsLine line rest text) (hplain : PlainLine line) :
    ∃ body ending, line = body ++ ending ∧ Inner body ∧ Ends ending rest := by
  have hinner : ∀ {body : Bytes}, (∀ b ∈ body, b ∈ line) → lineFeed ∉ body →
      carriageReturn ∉ body → Inner body := by
    intro body hsub hfeed hreturn b hb
    refine ⟨fun hquote => hplain.unquoted (hquote ▸ hsub b hb), Bool.eq_false_iff.2 fun hend => ?_⟩
    rcases isTerminator_iff.1 hend with rfl | rfl
    · exact hreturn hb
    · exact hfeed hb
  rcases h.2 with ⟨body, rfl, hfeed⟩ | ⟨hfeed, rfl⟩
  · by_cases hreturn : carriageReturn ∈ body
    · -- the carriage return is the last byte before the line feed
      obtain ⟨before, after, rfl⟩ := List.append_of_mem hreturn
      have hafter := hplain.carriage before (after ++ [lineFeed]) (by simp)
      obtain rfl : after = [] := by simpa using hafter
      refine ⟨before, [carriageReturn, lineFeed], by simp, hinner (fun b hb => by simp [hb]) ?_ ?_,
        .inr (.inl rfl)⟩
      · exact fun hmem => hfeed (List.mem_append_left _ hmem)
      · intro hmem
        obtain ⟨first, more, rfl⟩ := List.append_of_mem hmem
        have hmore := hplain.carriage first (more ++ [carriageReturn] ++ [lineFeed]) (by simp)
        have hlength := congrArg List.length hmore
        simp at hlength
    · exact ⟨body, [lineFeed], rfl, hinner (fun b hb => by simp [hb]) hfeed hreturn, .inl rfl⟩
  · refine ⟨line, [], by simp, hinner (fun b hb => hb) hfeed fun hmem => ?_, .inr (.inr ⟨rfl, rfl⟩)⟩
    obtain ⟨before, after, rfl⟩ := List.append_of_mem hmem
    have hafter := hplain.carriage before after rfl
    rw [hafter] at hfeed
    exact hfeed (by simp)

/-- What has no quotes and no end in it makes a plain line, with any end. -/
theorem Inner.plainLine (hbody : Inner body) (hend : Ends ending rest) :
    PlainLine (body ++ ending) := by
  constructor
  · intro hmem
    rcases List.mem_append.1 hmem with hmem | hmem
    · exact (hbody _ hmem).1 rfl
    · exact absurd (hend.terminators _ hmem) (by decide)
  · intro before after h
    rcases List.append_eq_append_iff.1 h with ⟨more, -, hrest⟩ | ⟨more, rfl, hrest⟩
    · have hreturn : carriageReturn ≠ lineFeed := by decide
      rcases hend with rfl | rfl | ⟨rfl, -⟩
      · simp [List.cons_eq_append_iff, hreturn] at hrest
      · have hsplit : more = [] ∧ after = [lineFeed] := by
          simpa [List.cons_eq_append_iff, hreturn] using hrest
        exact hsplit.2
      · simp at hrest
    · cases more with
      | nil =>
        rw [List.nil_append] at hrest
        rcases hend with rfl | rfl | ⟨rfl, -⟩
        · cases hrest
        · exact (List.cons.inj hrest).2
        · cases hrest
      | cons b more =>
        obtain ⟨rfl, -⟩ := List.cons.inj hrest
        exact absurd (hbody carriageReturn (by simp)).2 (by decide)

theorem IsLine.legal (h : IsLine line rest text) (htext : Utf8.Legal text) :
    Utf8.Legal line ∧ Utf8.Legal rest := by
  obtain ⟨rfl, ⟨body, rfl, -⟩ | ⟨-, rfl⟩⟩ := h
  · rw [List.append_assoc, List.singleton_append] at htext
    obtain ⟨hbody, hrest⟩ := htext.cut (by decide)
    exact ⟨hbody.append (Utf8.legal_ascii (by decide)), hrest⟩
  · rw [List.append_nil] at htext
    exact ⟨htext, Utf8.legal_nil⟩

theorem Ends.legal_body (h : Ends ending rest) (hline : Utf8.Legal (body ++ ending)) :
    Utf8.Legal body := by
  rcases h with rfl | rfl | ⟨rfl, -⟩
  · exact (hline.cut (by decide)).1
  · exact (hline.cut (by decide)).1
  · rwa [List.append_nil] at hline

/-! ## Byte order marks -/

theorem scan_dropMark (d : UInt8) (text : Bytes) :
    (scan d text).map Record.fields = fieldsFrom d .record [] [] (dropMark text) := by
  unfold dropMark
  split
  · exact scan_marked _
  · rename_i hmark
    exact scan_fields fun rest h => hmark rest h

/-- A mark does not reach over the end of a line. -/
theorem dropMark_append (h : ∀ b ∈ text.head?, isTerminator b = true) (body : Bytes) :
    dropMark (body ++ text) = dropMark body ++ text := by
  have hend : ∀ b, isTerminator b = true → b ≠ 0xEF ∧ b ≠ 0xBB ∧ b ≠ 0xBF := by
    intro b hb
    rcases isTerminator_iff.1 hb with rfl | rfl
    · decide
    · decide
  have hplain : ∀ {text : Bytes}, (∀ rest, text ≠ 0xEF :: 0xBB :: 0xBF :: rest) →
      dropMark text = text := by
    intro text hunmarked
    unfold dropMark
    split
    · exact absurd rfl (hunmarked _)
    · rfl
  by_cases hmark : ∃ more, body = 0xEF :: 0xBB :: 0xBF :: more
  · obtain ⟨more, rfl⟩ := hmark
    rfl
  · have hbody : dropMark body = body := hplain fun more hmore => hmark ⟨more, hmore⟩
    rw [hbody, hplain]
    intro more hmore
    -- what a mark lacks would be the first byte of the end of the line
    match body, hmore with
    | [], hmore =>
      rw [List.nil_append] at hmore
      rw [hmore] at h
      exact (hend _ (h _ rfl)).1 rfl
    | [a], hmore =>
      simp only [List.cons_append, List.nil_append, List.cons.injEq] at hmore
      rw [hmore.2] at h
      exact (hend _ (h _ rfl)).2.1 rfl
    | [a, b], hmore =>
      simp only [List.cons_append, List.nil_append, List.cons.injEq] at hmore
      rw [hmore.2.2] at h
      exact (hend _ (h _ rfl)).2.2 rfl
    | a :: b :: c :: body, hmore =>
      simp only [List.cons_append, List.cons.injEq] at hmore
      obtain ⟨rfl, rfl, rfl, -⟩ := hmore
      exact hmark ⟨body, rfl⟩

theorem mem_of_mem_dropMark {b : UInt8} (h : b ∈ dropMark text) : b ∈ text := by
  unfold dropMark at h
  split at h
  · exact List.mem_cons_of_mem _ (List.mem_cons_of_mem _ (List.mem_cons_of_mem _ h))
  · exact h

theorem count_dropMark (h : d < 0x80) (text : Bytes) :
    (dropMark text).count d = text.count d := by
  have hne : ∀ b : UInt8, ¬ b < 0x80 → b ≠ d := by
    rintro b hb rfl
    exact hb h
  unfold dropMark
  split
  · rw [List.count_cons_of_ne (hne _ (by decide)), List.count_cons_of_ne (hne _ (by decide)),
      List.count_cons_of_ne (hne _ (by decide))]
  · rfl

theorem legal_dropMark (h : Utf8.Legal text) : Utf8.Legal (dropMark text) := by
  unfold dropMark
  split
  · rename_i rest
    obtain ⟨cs, hcs⟩ := h
    cases cs with
    | nil => cases hcs
    | cons c cs =>
      have hchar := Utf8.scalar?_encodeChar c (Utf8.encodeChars cs)
      have hmark : Utf8.scalar? (0xEF :: 0xBB :: 0xBF :: rest) = some (mark, rest) := by
        simp [Utf8.scalar?, Utf8.leadsThree, Utf8.isTail, Utf8.payload, mark]
      rw [show String.utf8EncodeChar c ++ Utf8.encodeChars cs = _ from hcs, hmark] at hchar
      exact ⟨cs, (Prod.mk.inj (Option.some.inj hchar)).2.symm⟩
  · exact h

/-! ## Splitting -/

theorem modifyHead_reverse_nil (fields : List Bytes) :
    fields.modifyHead (([] : Bytes).reverse ++ ·) = fields := by
  cases fields with
  | nil => rfl
  | cons field fields => rfl

/-- A line without quotes is split at its delimiters. -/
theorem fieldsFrom_body (hd : Separates d) (hbody : Inner body) (hend : Ends ending rest)
    {mode : Mode} (hmode : mode = .field ∨ mode = .plain) (field : Bytes) (fields : List Bytes) :
    fieldsFrom d mode field fields (body ++ (ending ++ rest)) =
      (fields.reverse ++ (body.splitOn d).modifyHead (field.reverse ++ ·)) ::
        fieldsFrom d .record [] [] rest := by
  induction body generalizing mode field fields with
  | nil =>
    have hclose : Closes mode := hmode.elim .inl fun h => .inr (.inl h)
    rw [List.nil_append, List.splitOn_nil, List.modifyHead_cons, List.append_nil]
    rcases hend with rfl | rfl | ⟨rfl, rfl⟩
    · exact fieldsFrom_lineFeed hd.ne_lineFeed hclose field fields rest
    · have hreturn : step d mode carriageReturn = .endRecord .carriage := by
        have hne : (carriageReturn == d) = false :=
          beq_eq_false_iff_ne.2 fun h => absurd hd.terminator (by rw [← h]; decide)
        have hplain : stepPlain d carriageReturn = .endRecord .carriage := by
          unfold stepPlain
          rw [hne]
          rfl
        rcases hmode with rfl | rfl
        · exact hplain
        · exact hplain
      have hfeed : step d .carriage lineFeed = .skip .record := rfl
      rw [List.cons_append, fieldsFrom_cons, hreturn]
      dsimp only
      rw [List.singleton_append, fieldsFrom_cons, hfeed, List.reverse_cons]
    · rcases hmode with rfl | rfl
      · exact congrArg (· :: _) List.reverse_cons
      · exact congrArg (· :: _) List.reverse_cons
  | cons b body ih =>
    obtain ⟨hquote, hterminator⟩ := hbody b List.mem_cons_self
    have hstep : step d mode b = stepPlain d b := by
      have hne : (b == quoteByte) = false := beq_eq_false_iff_ne.2 hquote
      rcases hmode with rfl | rfl
      · simp only [step, stepField, hne, Bool.false_eq_true, if_false]
      · rfl
    have hrest := fun {mode : Mode} (hmode : mode = .field ∨ mode = .plain) =>
      ih (fun b' hb' => hbody b' (List.mem_cons_of_mem b hb')) hmode
    rw [List.cons_append, fieldsFrom_cons, hstep, stepPlain, List.splitOn_cons_eq_if_modifyHead]
    by_cases hb : b = d
    · simp only [hb, beq_self_eq_true, if_true, hrest (.inl rfl), modifyHead_reverse_nil]
      simp
    · simp [hb, hterminator, hrest (.inr rfl), Function.comp_def]

theorem length_splitOn (d : UInt8) (body : Bytes) :
    (body.splitOn d).length = body.count d + 1 := by
  induction body with
  | nil => rfl
  | cons b body ih =>
    rw [List.splitOn_cons_eq_if_modifyHead]
    by_cases hb : b = d
    · simp [hb, ih]
    · simp [hb, ih]

/-- A line that holds a byte of its own is a record. -/
theorem fieldsFrom_plain_line (hd : Separates d) (hbody : Inner body) (hne : body ≠ [])
    (hend : Ends ending rest) : fieldsFrom d .record [] [] (body ++ (ending ++ rest)) =
      body.splitOn d :: fieldsFrom d .record [] [] rest := by
  obtain ⟨b, body, rfl⟩ := List.exists_cons_of_ne_nil hne
  have hline := fieldsFrom_body hd hbody hend (.inl rfl) [] []
  rw [List.cons_append] at hline ⊢
  rw [fieldsFrom_start (hbody b List.mem_cons_self).2, hline,
    modifyHead_reverse_nil, List.reverse_nil, List.nil_append]

/-! ## The first two lines -/

/-- A text begins with two lines in which quotes and carriage returns do not matter: a first one
that is not empty, and a second one that is not blank. -/
structure Opens (header first rest text : Bytes) : Prop where
  isHeader : IsLine header (first ++ rest) text
  isFirst : IsLine first rest (first ++ rest)
  plainHeader : PlainLine header
  plainFirst : PlainLine first
  named : ∃ b ∈ dropMark header, isTerminator b = false
  filled : ∃ s, Utf8.decode first = .ok s ∧ Text.trim s ≠ ""

theorem Ends.head (h : Ends ending rest) : ∀ b ∈ (ending ++ rest).head?, isTerminator b = true := by
  rcases h with rfl | rfl | ⟨rfl, rfl⟩
  · rintro b ⟨⟩
    rfl
  · rintro b ⟨⟩
    rfl
  · rintro b ⟨⟩

theorem Ends.not_mem (h : Ends ending rest) (hd : Separates d) : d ∉ ending := by
  intro hmem
  have hend := h.terminators d hmem
  rw [hd.terminator] at hend
  cases hend

/-- The bodies of the first two lines are the first two records. -/
theorem scan_lines {header first ending' : Bytes} (hd : Separates d)
    (hheader : Inner (dropMark header)) (hnamed : dropMark header ≠ []) (hfirst : Inner first)
    (hfilled : first ≠ []) (hends : Ends ending (first ++ (ending' ++ rest)))
    (hends' : Ends ending' rest) :
    (scan d (header ++ (ending ++ (first ++ (ending' ++ rest))))).map Record.fields =
      (dropMark header).splitOn d :: first.splitOn d :: fieldsFrom d .record [] [] rest := by
  rw [scan_dropMark, dropMark_append hends.head, fieldsFrom_plain_line hd hheader hnamed hends,
    fieldsFrom_plain_line hd hfirst hfilled hends']

/-- An end of a line is blank. -/
theorem Ends.blank {s : String} (h : Ends ending rest) (hs : Utf8.decode ending = .ok s) :
    Text.trim s = "" := by
  have hcases : ∀ t : String, Utf8.encode t = ending → s = t := by
    rintro t rfl
    rw [Utf8.decode_encode] at hs
    exact (Except.ok.inj hs).symm
  rcases h with rfl | rfl | ⟨rfl, -⟩
  · rw [hcases "\n" (by decide)]
    decide
  · rw [hcases "\r\n" (by decide)]
    decide
  · rw [hcases "" (by decide)]
    decide

/-- Of a text that begins with two such lines the reader takes their fields for the first two
records. The delimiters in the lines are what is counted in their bytes. -/
theorem Opens.scan {header first : Bytes} (h : Opens header first rest text) (hd : Separates d)
    (hb : d < 0x80) :
    ∃ names cells more, (scan d text).map Record.fields = names :: cells :: more ∧
      names.length = header.count d + 1 ∧ cells.length = first.count d + 1 ∧
      (Utf8.Legal header → ∃ texts, encodeFields texts = names) ∧
      ∃ texts, encodeFields texts = cells := by
  obtain ⟨htext, -⟩ := h.isHeader
  obtain ⟨body, ending, rfl, hbody, hends⟩ := exists_body h.isHeader h.plainHeader
  obtain ⟨body', ending', rfl, hbody', hends'⟩ := exists_body h.isFirst h.plainFirst
  obtain ⟨s, hs, htrim⟩ := h.filled
  have hnamed : dropMark body ≠ [] := by
    intro hnil
    obtain ⟨b, hb, hinner⟩ := h.named
    have hdrop : dropMark (body ++ ending) = dropMark body ++ ending :=
      dropMark_append (fun b hb => hends.terminators b (List.mem_of_mem_head? hb)) body
    rw [hdrop, hnil, List.nil_append] at hb
    rw [hends.terminators b hb] at hinner
    cases hinner
  have hfilled : body' ≠ [] := by
    rintro rfl
    exact htrim (hends'.blank hs)
  have hdropped : Inner (dropMark body) := fun b hb => hbody b (mem_of_mem_dropMark hb)
  have hpieces : ∀ {line : Bytes}, Utf8.Legal line → ∃ texts, encodeFields texts = line.splitOn d :=
    fun hline => Utf8.Legal.pieces hb (by rwa [List.intercalate_splitOn])
  rw [List.append_assoc] at hends
  refine ⟨(dropMark body).splitOn d, body'.splitOn d, fieldsFrom d .record [] [] rest, ?_, ?_, ?_,
    fun hlegal => hpieces (legal_dropMark (hends.legal_body hlegal)),
    hpieces (hends'.legal_body (Utf8.legal_of_decode hs))⟩
  · rw [htext, List.append_assoc, List.append_assoc]
    exact scan_lines hd hdropped hnamed hbody' hfilled hends hends'
  · rw [length_splitOn, count_dropMark hb, List.count_append,
      List.count_eq_zero.2 (hends.not_mem hd), Nat.add_zero]
  · rw [length_splitOn, List.count_append, List.count_eq_zero.2 (hends'.not_mem hd), Nat.add_zero]

theorem cutLine_of_isLine (h : IsLine line rest text) : Delimiter.cutLine text = (line, rest) := by
  have hcut : ∀ body rest : Bytes, lineFeed ∉ body →
      Delimiter.cutLine (body ++ lineFeed :: rest) = (body ++ [lineFeed], rest) := by
    intro body rest hfeed
    induction body with
    | nil => rfl
    | cons b body ih =>
      simp only [List.mem_cons, not_or] at hfeed
      rw [List.cons_append, Delimiter.cutLine, if_neg (Ne.symm hfeed.1), ih hfeed.2]
      rfl
  have hwhole : ∀ line : Bytes, lineFeed ∉ line → Delimiter.cutLine line = (line, []) := by
    intro line hfeed
    induction line with
    | nil => rfl
    | cons b line ih =>
      simp only [List.mem_cons, not_or] at hfeed
      rw [Delimiter.cutLine, if_neg (Ne.symm hfeed.1), ih hfeed.2]
  obtain ⟨rfl, ⟨body, rfl, hfeed⟩ | ⟨hfeed, rfl⟩⟩ := h
  · rw [List.append_assoc]
    exact hcut body rest hfeed
  · rw [List.append_nil]
    exact hwhole line hfeed

end Csv

/-! ## What is found -/

open Csv (Opens Separates)

namespace Delimiter

/-- With this delimiter the reader takes the start of a text for two records of the same width, each
of several fields. -/
def suits (text : Bytes) (d : UInt8) : Bool :=
  match Csv.scan d text with
  | header :: first :: _ =>
    header.fields.length == first.fields.length && decide (2 ≤ header.fields.length)
  | _ => false

variable {d : UInt8} {text header first rest : Bytes}

theorem separates_of_mem (h : d ∈ candidates) : Separates d ∧ d < 0x80 := by
  have hall : candidates.all (fun d => d != Csv.quoteByte && !Csv.isTerminator d &&
      decide (d < 0x80)) = true := by decide
  have hd := List.all_eq_true.1 hall d h
  simp only [Bool.and_eq_true, bne_iff_ne, Bool.not_eq_true', decide_eq_true_eq] at hd
  exact ⟨⟨hd.1.1, hd.1.2⟩, hd.2⟩

/-- Whether a delimiter suits the reader is a matter of how often it stands in both lines. -/
theorem suits_eq (h : Opens header first rest text) (hd : d ∈ candidates) :
    suits text d = (decide (0 < header.count d) && first.count d == header.count d) := by
  obtain ⟨hseparates, hsmall⟩ := separates_of_mem hd
  obtain ⟨names, cells, more, hscan, hnames, hcells, -⟩ := h.scan hseparates hsmall
  obtain ⟨r, records, hcons, rfl, htail⟩ := List.map_eq_cons_iff.1 hscan
  obtain ⟨r', records, rfl, rfl, -⟩ := List.map_eq_cons_iff.1 htail
  unfold suits
  rw [hcons]
  dsimp only
  rw [hnames, hcells, Bool.eq_iff_iff]
  simp only [Bool.and_eq_true, beq_iff_eq, decide_eq_true_eq]
  omega

/-- What is found in two such lines is what suits the reader. -/
theorem detectIn_eq (h : Opens header first rest text) (hlegal : Utf8.Legal header) :
    detectIn text = .ok (candidates.find? (suits text)) := by
  obtain ⟨s, hs⟩ := hlegal.exists_decode
  obtain ⟨t, ht, htrim⟩ := h.filled
  have hfind : detect? header first (Text.trim t = "") = candidates.find? (suits text) := by
    unfold detect?
    refine List.find?_congr fun d hd => ?_
    dsimp only
    rw [suits_eq h hd, decide_eq_false htrim, Bool.false_or]
  unfold detectIn
  rw [Csv.cutLine_of_isLine h.isHeader]
  dsimp only
  rw [Csv.cutLine_of_isLine h.isFirst, hs, ht]
  dsimp only
  rw [hfind]

/-- With a delimiter that suits it the reader reads the header and the record below it, and both are
as wide. -/
theorem read_of_suits (h : Opens header first rest text) (hlegal : Utf8.Legal header)
    (hd : d ∈ candidates) (hsuits : suits text d = true) :
    ∃ sheet cells more, Csv.Sheet.read d text = .ok sheet ∧ sheet.records = .ok cells :: more ∧
      cells.length = sheet.header.length ∧ 2 ≤ cells.length := by
  obtain ⟨hseparates, hsmall⟩ := separates_of_mem hd
  obtain ⟨names, cells, more, hscan, hnames, hcells, hheader, texts', rfl⟩ :=
    h.scan hseparates hsmall
  obtain ⟨texts, rfl⟩ := hheader hlegal
  obtain ⟨r, records, hcons, hfields, htail⟩ := List.map_eq_cons_iff.1 hscan
  obtain ⟨r', records, rfl, hfields', -⟩ := List.map_eq_cons_iff.1 htail
  have hwidth : ∀ texts : List String, (Csv.encodeFields texts).length = texts.length :=
    fun texts => List.length_map _
  unfold suits at hsuits
  rw [hcons] at hsuits
  dsimp only at hsuits
  rw [hfields, hfields', hwidth, hwidth, Bool.and_eq_true, beq_iff_eq, decide_eq_true_eq] at hsuits
  have hread : Csv.Sheet.read d text = .ok ⟨texts, .ok texts' ::
      records.map fun r => Csv.checkRecord texts.length r.start r⟩ := by
    unfold Csv.Sheet.read
    rw [hcons]
    dsimp only
    rw [hfields, Csv.decodeFields_encodeFields, hwidth, List.map_cons,
      Csv.checkRecord_encodeFields r'.start hfields' hsuits.1.symm]
    rfl
  exact ⟨_, texts', _, hread, rfl, hsuits.1.symm, hsuits.1 ▸ hsuits.2⟩

/-- The delimiter of a file whose first two lines hold no quotes, and carriage returns at most
before their line feeds, is the first candidate with which the reader takes these lines for records
of the same width and of several fields; if there is none it is the comma. With a delimiter that has
been found the record below the header is read and has its width, whatever else the file holds. -/
theorem sniff_agrees {files : FileTree} {path content : String} {text header first rest : Bytes}
    (hread : files.read path = .ok text) (hcontent : Utf8.decode text = .ok content)
    (hopens : Opens header first rest text) :
    sniff files path = .ok (candidates.find? (suits text)) ∧
      (∀ (d : Dataset) (raised : Bool), d.path = path → d.delimiter = none →
        d.findDelimiter.alone raised files =
          some (.ok ((candidates.find? (suits text)).getD comma), files)) ∧
      ∀ d rest' text', sniff files path = .ok (some d) → Opens header first rest' text' →
        ∃ sheet cells more, Csv.Sheet.read d text' = .ok sheet ∧
          sheet.records = .ok cells :: more ∧ cells.length = sheet.header.length ∧
            2 ≤ cells.length := by
  have hlegal := (hopens.isHeader.legal (Utf8.legal_of_decode hcontent)).1
  have hsniff : sniff files path = .ok (candidates.find? (suits text)) := by
    unfold sniff
    rw [hread]
    show (detectIn text).mapError Fault.io = _
    rw [detectIn_eq hopens hlegal]
    rfl
  refine ⟨hsniff, ?_, ?_⟩
  · rintro d raised rfl hnone
    unfold Dataset.findDelimiter
    rw [hnone]
    show (Task.done (sniff files d.path) >>= fun found =>
      Task.succeed (found.getD comma)).alone raised files = _
    rw [hsniff]
    rfl
  · intro d rest' text' hfound hopens'
    rw [hsniff] at hfound
    have hfind := Except.ok.inj hfound
    have hd := List.mem_of_find?_eq_some hfind
    have hsuits := List.find?_some hfind
    refine read_of_suits hopens' hlegal hd ?_
    rw [suits_eq hopens' hd, ← suits_eq hopens hd, hsuits]

/-- A line that begins with a byte order mark and holds a comma, but it is its semicolon that stands
in the next line, too. -/
def markedHeader : Bytes := Utf8.encode "\uFEFFa,x;b\r\n"

def markedFirst : Bytes := Utf8.encode "1;2\r\n"

theorem opens_marked (rest : Bytes) :
    Opens markedHeader markedFirst rest (markedHeader ++ (markedFirst ++ rest)) := by
  have hplain : ∀ body : Bytes, body.all (fun b => b != Csv.quoteByte && !Csv.isTerminator b) →
      Csv.PlainLine (body ++ [Csv.carriageReturn, Csv.lineFeed]) := by
    intro body hall
    have hbody : Csv.Inner body := by
      intro b hb
      simpa using List.all_eq_true.1 hall b hb
    have hend : Csv.Ends [Csv.carriageReturn, Csv.lineFeed] [] := .inr (.inl rfl)
    exact Csv.Inner.plainLine hbody hend
  exact
    { isHeader := ⟨rfl, .inl ⟨Utf8.encode "\uFEFFa,x;b\r", by decide, by decide⟩⟩
      isFirst := ⟨rfl, .inl ⟨Utf8.encode "1;2\r", by decide, by decide⟩⟩
      plainHeader := hplain (Utf8.encode "\uFEFFa,x;b") (by decide)
      plainFirst := hplain (Utf8.encode "1;2") (by decide)
      named := ⟨97, by decide, by decide⟩
      filled := ⟨"1;2\r\n", Utf8.decode_encode _, by decide⟩ }

/-- The third line of the file is a quote that is never closed. The record above it is read even if
that line were no text at all. -/
theorem sniff_agrees_marked :
    sniff (FileTree.empty.put [.given "a.csv"]
      (.file (markedHeader ++ (markedFirst ++ [Csv.quoteByte])))) "a.csv" = .ok (some 59) ∧
    ∃ sheet cells more, Csv.Sheet.read 59 (markedHeader ++ (markedFirst ++ [0xFF])) = .ok sheet ∧
      sheet.records = .ok cells :: more ∧ cells.length = sheet.header.length ∧
        2 ≤ cells.length := by
  have hread : (FileTree.empty.put [.given "a.csv"]
      (.file (markedHeader ++ (markedFirst ++ [Csv.quoteByte])))).read "a.csv" = .ok _ := rfl
  have hcontent := Utf8.decode_encode "\uFEFFa,x;b\r\n1;2\r\n\""
  obtain ⟨hsniff, -, hrecord⟩ := sniff_agrees hread hcontent (opens_marked _)
  have hfind : candidates.find? (suits (markedHeader ++ (markedFirst ++ [Csv.quoteByte]))) =
      some 59 := by decide
  rw [hfind] at hsniff
  exact ⟨hsniff, hrecord 59 _ _ hsniff (opens_marked _)⟩

end Delimiter

end Equijoin
