import Equijoin.Proofs.Text.Headers

/-! # How many names are read

A written header may be read with other names, but never with more. So if it is read with the same
names, and none of them was there twice, it is the header in some order.

* `ended`: the number of fields that are complete before their record is.
* `ended_line`: with quotes as delimiters, too, a line has no more of them than delimiters.
* `Rereads.length_le`, `Rereads.perm`: the header of a sheet that has the names of a header.
-/

set_option autoImplicit false

namespace Equijoin.Csv

variable {d : UInt8} {mode : Mode} {fields : List Bytes}

/-- The number of fields that are complete before the record is. -/
def ended (d : UInt8) : Mode → Bytes → Nat
  | _, [] => 0
  | mode, b :: text =>
    match step d mode b with
    | .skip next => ended d next text
    | .copy next => ended d next text
    | .endField => ended d .field text + 1
    | .endRecord _ => 0

theorem exists_first (hmode : Open mode) (field : Bytes) (fields : List Bytes) (text : Bytes) :
    ∃ first more, fieldsFrom d mode field fields text = first :: more ∧
      first.length = fields.length + ended d mode text + 1 := by
  induction text generalizing mode field fields with
  | nil =>
    have hlast : fieldsFrom d mode field fields [] = [(field.reverse :: fields).reverse] := by
      cases mode with
      | record => exact absurd rfl hmode.1
      | carriage => exact absurd rfl hmode.2
      | _ => rfl
    exact ⟨_, _, hlast, by simp [ended]⟩
  | cons b text ih =>
    rw [fieldsFrom_cons, ended]
    cases hstep : step d mode b with
    | skip next => exact ih (open_of_step hmode (.inl hstep)) field fields
    | copy next => exact ih (open_of_step hmode (.inr hstep)) (b :: field) fields
    | endField =>
      obtain ⟨first, more, hfirst, hlength⟩ := ih open_field [] (field.reverse :: fields)
      refine ⟨first, more, hfirst, ?_⟩
      rw [hlength, List.length_cons]
      show _ = fields.length + (ended d .field text + 1) + 1
      omega
    | endRecord next => exact ⟨_, _, rfl, by simp⟩

theorem length_first (hmode : Open mode) {field text : Bytes} {first : List Bytes}
    {more : List (List Bytes)} (h : fieldsFrom d mode field fields text = first :: more) :
    first.length = fields.length + ended d mode text + 1 := by
  obtain ⟨first', more', hfirst, hlength⟩ := exists_first hmode field fields text
  cases h.symm.trans hfirst
  exact hlength

/-! ## Quotes as delimiters -/

theorem step_plain (hmode : Open mode) {b : UInt8} (hb : needsQuotes d b = false) :
    ∃ next, step d mode b = .copy next ∧ Open next := by
  simp only [needsQuotes, Bool.or_eq_false_iff] at hb
  have hplain : stepPlain d b = .copy .plain := by
    simp only [stepPlain, hb.1.1, hb.2, Bool.false_eq_true, if_false]
  cases mode with
  | record => exact absurd rfl hmode.1
  | carriage => exact absurd rfl hmode.2
  | field => exact ⟨.plain, by simp [step, stepField, hb.1.2, hplain], open_plain⟩
  | plain => exact ⟨.plain, hplain, open_plain⟩
  | quoted => exact ⟨.quoted, by simp [step, hb.1.2], open_quoted⟩
  | quoteSeen => exact ⟨.plain, by simp [step, hb.1.2, hplain], open_plain⟩

theorem ended_plain {f : Bytes} (hplain : ∀ b ∈ f, needsQuotes d b = false) (hmode : Open mode)
    (text : Bytes) : ∃ next, Open next ∧ ended d mode (f ++ text) = ended d next text := by
  induction f generalizing mode with
  | nil => exact ⟨mode, hmode, rfl⟩
  | cons b f ih =>
    obtain ⟨next, hstep, hnext⟩ := step_plain hmode (hplain b List.mem_cons_self)
    rw [List.cons_append, ended, hstep]
    exact ih (fun b hb => hplain b (List.mem_cons_of_mem _ hb)) hnext

theorem ended_quoted (f text : Bytes) :
    ended d .quoted (doubleQuotes f ++ quoteByte :: text) = ended d .quoteSeen text := by
  obtain ⟨first, more, hfirst, hlength⟩ :=
    exists_first (d := d) open_quoted [] [] (doubleQuotes f ++ quoteByte :: text)
  rw [fieldsFrom_close] at hfirst
  have := length_first open_quoteSeen hfirst
  omega

variable {k : Nat} {text : Bytes}

/-- Quoted bytes that are read outside quotes end one field at most: the first quote among them does,
and those behind it are in pairs. -/
theorem ended_unquoted (htext : ∀ mode, Open mode → ended quoteByte mode text ≤ k) (f : Bytes)
    (hmode : mode = .plain ∨ mode = .quoteSeen) :
    ended quoteByte mode (doubleQuotes f ++ quoteByte :: text) ≤ k + 1 := by
  induction f generalizing mode with
  | nil =>
    obtain rfl | rfl := hmode
    · exact Nat.succ_le_succ (htext .field open_field)
    · exact Nat.le_succ_of_le (htext .quoted open_quoted)
  | cons b f ih =>
    by_cases hb : b = quoteByte
    · subst hb
      obtain rfl | rfl := hmode
      · show ended quoteByte .quoted (doubleQuotes f ++ quoteByte :: text) + 1 ≤ k + 1
        rw [ended_quoted]
        exact Nat.succ_le_succ (htext .quoteSeen open_quoteSeen)
      · exact ih (.inr rfl)
    · have hdouble : doubleQuotes (b :: f) = b :: doubleQuotes f := by simp [doubleQuotes, hb]
      have hstep : step quoteByte mode b = stepPlain quoteByte b := by
        obtain rfl | rfl := hmode
        · rfl
        · simp [step, hb]
      rw [hdouble, List.cons_append, ended, hstep]
      unfold stepPlain
      rw [if_neg (by simpa using hb)]
      by_cases hterminator : isTerminator b = true
      · simp [hterminator]
      · simp only [hterminator, Bool.false_eq_true, if_false]
        exact ih (.inl rfl)

/-- A quote has been read whose field may still turn out to be complete. -/
def pending : Mode → Nat
  | .quoted => 1
  | .quoteSeen => 1
  | _ => 0

theorem ended_field (htext : ∀ mode, Open mode → ended quoteByte mode text ≤ k) (f : Bytes)
    (hmode : mode = .field ∨ mode = .quoted ∨ mode = .quoteSeen) :
    ended quoteByte mode (writeField quoteByte f ++ text) ≤ k + pending mode := by
  have hopen : Open mode := by
    obtain rfl | rfl | rfl := hmode
    · exact open_field
    · exact open_quoted
    · exact open_quoteSeen
  by_cases hany : f.any (needsQuotes quoteByte) = true
  · have hwritten : writeField quoteByte f ++ text =
        quoteByte :: (doubleQuotes f ++ quoteByte :: text) := by
      unfold writeField
      rw [if_pos hany]
      simp
    rw [hwritten]
    have hquoted : ended quoteByte .quoted (doubleQuotes f ++ quoteByte :: text) ≤ k := by
      rw [ended_quoted]
      exact htext .quoteSeen open_quoteSeen
    obtain rfl | rfl | rfl := hmode
    · exact hquoted
    · exact ended_unquoted htext f (.inr rfl)
    · exact Nat.le_succ_of_le hquoted
  · have hplain : ∀ b ∈ f, needsQuotes quoteByte b = false := by
      intro b hb
      rw [Bool.eq_false_iff]
      exact fun hneeds => hany (List.any_eq_true.2 ⟨b, hb, hneeds⟩)
    have hwritten : writeField quoteByte f = f := by
      unfold writeField
      rw [if_neg hany]
    obtain ⟨next, hnext, hended⟩ := ended_plain hplain hopen text
    rw [hwritten, hended]
    exact Nat.le_add_right_of_le (htext next hnext)

/-- A line ends no more fields than it has delimiters, and one more if it is read from inside
quotes. -/
theorem ended_line (f : Bytes) (fields : List Bytes)
    (hmode : mode = .field ∨ mode = .quoted ∨ mode = .quoteSeen) :
    ended quoteByte mode ([quoteByte].intercalate ((f :: fields).map (writeField quoteByte)) ++
      [lineFeed]) ≤ fields.length + pending mode := by
  induction fields generalizing f mode with
  | nil =>
    simp only [List.map_cons, List.map_nil, List.intercalate_singleton]
    refine ended_field (fun mode _ => ?_) f hmode
    cases mode <;> decide
  | cons next fields ih =>
    have hline : [quoteByte].intercalate ((f :: next :: fields).map (writeField quoteByte)) ++
        [lineFeed] = writeField quoteByte f ++ quoteByte ::
          ([quoteByte].intercalate ((next :: fields).map (writeField quoteByte)) ++ [lineFeed]) := by
      simp [List.intercalate_cons_cons]
    rw [hline]
    refine ended_field (fun mode hopen => ?_) f hmode
    -- the delimiter ends a field, or begins or ends a quoted part of one
    cases mode with
    | record => exact absurd rfl hopen.1
    | carriage => exact absurd rfl hopen.2
    | field => exact ih next (.inr (.inl rfl))
    | plain => exact Nat.succ_le_succ (ih next (.inl rfl))
    | quoted => exact ih next (.inr (.inr rfl))
    | quoteSeen => exact ih next (.inr (.inl rfl))

/-! ## Lines -/

/-- What is read first of a line has no more fields than the line. -/
theorem length_first_line (hd : d ≠ lineFeed)
    (hne : [d].intercalate (fields.map (writeField d)) ≠ []) {first : List Bytes}
    {more : List (List Bytes)} (h : fieldsFrom d .record [] []
      ([d].intercalate (fields.map (writeField d)) ++ [lineFeed]) = first :: more) :
    first.length ≤ fields.length := by
  obtain ⟨f, rest, rfl⟩ : ∃ f rest, fields = f :: rest := by
    apply List.exists_cons_of_ne_nil
    rintro rfl
    exact hne rfl
  by_cases hquote : d = quoteByte
  · subst hquote
    rw [fieldsFrom_begin (by decide) hne] at h
    have hlength := length_first open_field h
    have hline := ended_line f rest (.inl rfl)
    simp only [pending, List.length_nil, List.length_cons] at hlength hline ⊢
    omega
  by_cases hreturn : d = carriageReturn
  · subst hreturn
    by_cases hblank : ∀ g ∈ f :: rest, g = []
    · rw [fieldsFrom_blank hblank] at h
      cases h
    · push Not at hblank
      obtain ⟨kept, -, hsuffix, hkept⟩ := fieldsFrom_kept hblank
      rw [hkept] at h
      cases h
      exact hsuffix.length_le
  · have hterminator : isTerminator d = false := by simp [isTerminator, hd, hreturn]
    rw [fieldsFrom_begin hterminator hne, fieldsFrom_intercalate hquote hd (List.cons_ne_nil f rest)]
      at h
    cases h
    exact le_rfl

/-! ## Headers -/

variable {header : List String} {records : List (List String)} {sheet : Sheet}

theorem Rereads.length_le_of_line (h : Rereads d header records sheet) (hd : d ≠ lineFeed)
    (hline : ReadsAs d header fields) : sheet.header.length ≤ header.length := by
  have hlength : (encodeFields sheet.header).length = sheet.header.length := List.length_map _
  obtain hfirst | ⟨rfl, hblank⟩ := h.first_of_line hd hline
  · obtain ⟨more, hmore⟩ := hfirst []
    rw [← hline.width, ← hlength]
    exact length_first_line hd hline.line hmore
  · -- a record takes the place of the header
    have hseveral : 2 ≤ header.length := by
      rw [← hline.width]
      by_contra hfew
      apply hline.line
      cases fields with
      | nil => rfl
      | cons f rest =>
        obtain rfl : rest = [] := by
          rw [List.length_cons] at hfew
          exact List.eq_nil_of_length_eq_zero (by omega)
        rw [hblank f List.mem_cons_self]
        rfl
    obtain ⟨more, hmore⟩ := h.first hline.header_ne_nil
    rw [hline.scan, fieldsFrom_blank hblank] at hmore
    obtain ⟨-, r, hr, hsuffix⟩ := exists_of_several
      (fun r hr => by rw [h.width r hr]; exact hseveral) hmore
    have hle := hsuffix.length_le
    rw [hlength] at hle
    rw [← h.width r hr]
    exact hle.trans (List.length_map _).le

theorem Rereads.length_le (h : Rereads d header records sheet) (hd : d ≠ lineFeed)
    (hheader : header ≠ []) : sheet.header.length ≤ header.length := by
  obtain ⟨name, names, rfl⟩ := List.exists_cons_of_ne_nil hheader
  by_cases hmarked : ∃ text rest,
      writeLine d (name :: names) ++ text = 0xEF :: 0xBB :: 0xBF :: rest
  · obtain ⟨text, rest, htext⟩ := hmarked
    obtain ⟨cs, -, hscan, hline⟩ := readsAs_marked htext
    by_cases hlone : cs = [] ∧ names = []
    · obtain ⟨rfl, rfl⟩ := hlone
      rw [alike_lone hd hscan h]
    · exact h.length_le_of_line hd (hline hlone)
  · have hunmarked : ∀ text, Unmarked (writeLine d (name :: names) ++ text) :=
      fun text rest htext => hmarked ⟨text, rest, htext⟩
    cases names with
    | nil => rw [h.header_single hd (hunmarked _)]
    | cons next names => exact h.length_le_of_line hd (readsAs_unmarked (by simp) hunmarked)

/-- A header without repeated names that is read with the same names is read in some order. -/
theorem Rereads.perm (h : Rereads d header records sheet) (hd : d ≠ lineFeed)
    (hheader : header ≠ []) (hdistinct : header.Nodup) : sheet.header.Perm header := by
  have hsub : header.Subperm sheet.header :=
    hdistinct.subperm fun name hname => (h.names name).2 hname
  exact (hsub.perm_of_length_le (h.length_le hd hheader)).symm

end Equijoin.Csv
