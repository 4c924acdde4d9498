import Equijoin.Json.Reader
import Equijoin.Json.Writer
import Equijoin.Proofs.Outcomes

/-! # JSON read back

What is written is read back, whatever follows it.

* `textBody_write`, `text_write`: texts.
* `Parts`, `list_spread`: lists whose items stand between blanks.
* `Fills`, `record_spread`: objects whose fields stand between blanks.
-/

set_option autoImplicit false

namespace Equijoin.Json

variable {α σ : Type}

/-! ## Texts -/

theorem hexValue?_hexDigit {n : Nat} (h : n < 16) : hexValue? (hexDigit n) = some n := by
  have hall : ∀ n < 16, hexValue? (hexDigit n) = some n := by decide
  exact hall n h

theorem escape_control {c : Char} (h : c.toNat < 0x20) (rest : List Char) :
    escape ('u' :: '0' :: '0' :: hexDigit (c.toNat / 16) :: hexDigit (c.toNat % 16) :: rest) =
      .ok (c, rest) := by
  have hhigh : hexValue? (hexDigit (c.toNat / 16)) = some (c.toNat / 16) :=
    hexValue?_hexDigit (by omega)
  have hlow : hexValue? (hexDigit (c.toNat % 16)) = some (c.toNat % 16) :=
    hexValue?_hexDigit (by omega)
  have hzero : hexValue? '0' = some 0 := rfl
  have hsum : ((0 * 16 + 0) * 16 + c.toNat / 16) * 16 + c.toNat % 16 = c.toNat := by omega
  unfold escape hexFour
  simp only [hhigh, hlow, hzero, hsum, ok_bind]
  rw [if_neg (by simp; omega), if_neg (by simp; omega), Char.ofNat_toNat]

theorem textFrom_writeChar (fuel : Nat) (seen : List Char) (c : Char) (rest : List Char) :
    textFrom (fuel + 1) seen (writeChar c ++ rest) = textFrom fuel (c :: seen) rest := by
  unfold writeChar
  split
  all_goals try rfl
  split
  · rename_i hcontrol
    simp only [List.cons_append, List.nil_append, textFrom, escape_control hcontrol]
    rfl
  · rename_i hquote hbackslash _ _ _ _ _ hcontrol
    simp only [List.cons_append, List.nil_append, textFrom]
    rw [if_neg hquote, if_neg hbackslash, if_neg hcontrol]

theorem writeChar_ne_nil (c : Char) : writeChar c ≠ [] := by
  unfold writeChar
  split
  all_goals try exact List.cons_ne_nil _ _
  split
  · exact List.cons_ne_nil _ _
  · exact List.cons_ne_nil _ _

theorem textFrom_write (cs rest : List Char) {fuel : Nat} (seen : List Char)
    (hfuel : cs.length < fuel) : textFrom fuel seen (cs.flatMap writeChar ++ '"' :: rest) =
      .ok (String.ofList (seen.reverse ++ cs), rest) := by
  induction cs generalizing fuel seen with
  | nil =>
    obtain ⟨fuel, rfl⟩ : ∃ n, fuel = n + 1 := ⟨fuel - 1, by rw [List.length_nil] at hfuel; omega⟩
    rw [List.append_nil]
    rfl
  | cons c cs ih =>
    rw [List.length_cons] at hfuel
    obtain ⟨fuel, rfl⟩ : ∃ n, fuel = n + 1 := ⟨fuel - 1, by omega⟩
    rw [List.flatMap_cons, List.append_assoc, textFrom_writeChar, ih (c :: seen) (by omega),
      List.reverse_cons, List.append_assoc, List.singleton_append]

theorem length_le_flatMap {β γ : Type} {f : β → List γ} {xs : List β} (h : ∀ x ∈ xs, f x ≠ []) :
    xs.length ≤ (xs.flatMap f).length := by
  induction xs with
  | nil => exact Nat.zero_le _
  | cons x xs ih =>
    have hfirst := List.length_pos_iff.2 (h x List.mem_cons_self)
    have hothers := ih fun y hy => h y (List.mem_cons_of_mem _ hy)
    rw [List.flatMap_cons, List.length_append, List.length_cons]
    omega

theorem textBody_write (s : String) (rest : List Char) :
    textBody (s.toList.flatMap writeChar ++ '"' :: rest) = .ok (s, rest) := by
  have hlength : s.toList.length ≤ (s.toList.flatMap writeChar).length :=
    length_le_flatMap fun c _ => writeChar_ne_nil c
  unfold textBody
  rw [textFrom_write _ _ _ (by rw [List.length_append]; omega), List.reverse_nil, List.nil_append,
    String.ofList_toList]

/-! ## Blanks -/

def Blanks (cs : List Char) : Prop :=
  ∀ c ∈ cs, isSpace c = true

theorem blanks_nil : Blanks [] := fun _ hc => absurd hc List.not_mem_nil

theorem Blanks.cons {c : Char} {cs : List Char} (h : isSpace c = true) (hcs : Blanks cs) :
    Blanks (c :: cs) := List.forall_mem_cons.2 ⟨h, hcs⟩

theorem skipSpace_append {blanks : List Char} (h : Blanks blanks) (rest : List Char) :
    skipSpace (blanks ++ rest) = skipSpace rest := List.dropWhile_append_of_pos h

theorem skipSpace_cons {c : Char} (h : isSpace c = false) (rest : List Char) :
    skipSpace (c :: rest) = c :: rest :=
  List.dropWhile_cons_of_neg (by rw [h]; exact Bool.false_ne_true)

theorem writeText_append (s : String) (rest : List Char) :
    writeText s ++ rest = '"' :: (s.toList.flatMap writeChar ++ '"' :: rest) := by
  unfold writeText
  simp

theorem text_write (expected s : String) (rest : List Char) :
    text expected (writeText s ++ rest) = .ok (s, rest) := by
  unfold text
  rw [writeText_append, skipSpace_cons rfl]
  exact textBody_write s rest

/-- Parts with commas between them; blanks go before every part and after the last one. -/
def spread (lead tail : List Char) (parts : List (List Char)) : List Char :=
  lead ++ (',' :: lead).intercalate parts ++ tail

theorem intercalate_cons (sep part : List Char) (parts : List (List Char)) :
    sep.intercalate (part :: parts) = part ++ parts.flatMap (sep ++ ·) := by
  induction parts generalizing part with
  | nil => simp
  | cons next parts ih =>
    simp only [List.intercalate_cons_cons, ih next, List.flatMap_cons, List.append_assoc]

theorem spread_cons (lead tail part : List Char) (parts : List (List Char)) :
    spread lead tail (part :: parts) =
      lead ++ (part ++ (parts.flatMap ((',' :: lead) ++ ·) ++ tail)) := by
  unfold spread
  rw [intercalate_cons, List.append_assoc, List.append_assoc]

theorem length_le_spread {lead tail : List Char} {parts : List (List Char)}
    (h : ∀ part ∈ parts, part ≠ []) : parts.length ≤ (spread lead tail parts).length := by
  cases parts with
  | nil => exact Nat.zero_le _
  | cons part parts =>
    have hfirst := List.length_pos_iff.2 (h part List.mem_cons_self)
    have hothers : parts.length ≤ (parts.flatMap ((',' :: lead) ++ ·)).length :=
      length_le_flatMap fun _ _ => List.cons_ne_nil _ _
    rw [spread_cons, List.length_cons]
    simp only [List.length_append] at hothers ⊢
    omega

/-! ## Lists -/

/-- A text in quotes, perhaps with more after it, from which an item is read. -/
def Shows (item : Reader α) (part : List Char) (a : α) : Prop :=
  part.head? = some '"' ∧ ∀ rest, item (part ++ rest) = .ok (a, rest)

variable {lead tail : List Char} {item : Reader α} {parts : List (List Char)} {as : List α}

theorem nextItem_end (htail : Blanks tail) (first : Bool) (rest : List Char) :
    nextItem first (tail ++ ']' :: rest) = .ok (false, ']' :: rest) := by
  unfold nextItem
  rw [skipSpace_append htail, skipSpace_cons rfl]
  rfl

theorem nextItem_first (hlead : Blanks lead) (body : List Char) :
    nextItem true (lead ++ '"' :: body) = .ok (true, '"' :: body) := by
  unfold nextItem
  rw [skipSpace_append hlead, skipSpace_cons rfl]
  rfl

theorem nextItem_comma (hlead : Blanks lead) (body : List Char) :
    nextItem false (',' :: (lead ++ '"' :: body)) = .ok (true, '"' :: body) := by
  have hskip : skipSpace (lead ++ '"' :: body) = '"' :: body := by
    rw [skipSpace_append hlead, skipSpace_cons rfl]
  unfold nextItem
  rw [skipSpace_cons rfl]
  simp [hskip]

theorem itemsFrom_more (hlead : Blanks lead) (htail : Blanks tail)
    (h : List.Forall₂ (Shows item) parts as) {fuel : Nat} (hfuel : parts.length < fuel)
    (rest : List Char) :
    itemsFrom item fuel false (parts.flatMap ((',' :: lead) ++ ·) ++ (tail ++ ']' :: rest)) =
      .ok (as, ']' :: rest) := by
  induction h generalizing fuel with
  | nil =>
    obtain ⟨fuel, rfl⟩ : ∃ n, fuel = n + 1 := ⟨fuel - 1, by rw [List.length_nil] at hfuel; omega⟩
    rw [List.flatMap_nil, List.nil_append, itemsFrom, nextItem_end htail]
    rfl
  | @cons part a parts as hpart _ ih =>
    rw [List.length_cons] at hfuel
    obtain ⟨fuel, rfl⟩ : ∃ n, fuel = n + 1 := ⟨fuel - 1, by omega⟩
    obtain ⟨body, rfl⟩ : ∃ body, part = '"' :: body := List.head?_eq_some_iff.1 hpart.1
    have hitem := hpart.2
    simp only [List.cons_append] at hitem
    simp only [List.flatMap_cons, List.cons_append, List.append_assoc, itemsFrom]
    simp only [nextItem_comma hlead, ok_bind, if_true, hitem]
    simp only [List.cons_append] at ih
    rw [ih (by omega)]
    rfl

theorem itemsFrom_spread (hlead : Blanks lead) (htail : Blanks tail)
    (h : List.Forall₂ (Shows item) parts as) {fuel : Nat} (hfuel : parts.length < fuel)
    (rest : List Char) :
    itemsFrom item fuel true (spread lead tail parts ++ ']' :: rest) = .ok (as, ']' :: rest) := by
  obtain ⟨fuel, rfl⟩ : ∃ n, fuel = n + 1 := ⟨fuel - 1, by omega⟩
  cases h with
  | nil =>
    have hblanks : Blanks (lead ++ tail) := fun c hc =>
      (List.mem_append.1 hc).elim (hlead c) (htail c)
    rw [spread, List.intercalate_nil, List.append_nil, itemsFrom, nextItem_end hblanks]
    rfl
  | @cons part a parts as hpart hparts =>
    obtain ⟨body, rfl⟩ : ∃ body, part = '"' :: body := List.head?_eq_some_iff.1 hpart.1
    have hitem := hpart.2
    have hless : parts.length < fuel := by
      rw [List.length_cons] at hfuel
      omega
    have hmore := itemsFrom_more hlead htail hparts hless rest
    simp only [List.cons_append] at hitem hmore
    simp only [spread_cons, List.cons_append, List.append_assoc, itemsFrom, nextItem_first hlead,
      ok_bind, if_true, hitem, hmore]

/-- A list is read, item by item. -/
theorem list_spread (hlead : Blanks lead) (htail : Blanks tail)
    (h : List.Forall₂ (Shows item) parts as) (rest : List Char) :
    list item ('[' :: (spread lead tail parts ++ ']' :: rest)) = .ok (as, rest) := by
  have hne : ∀ part ∈ parts, part ≠ [] := by
    intro part hpart hnil
    obtain ⟨a, -, ha⟩ := exists_right_of_forall₂ h hpart
    rw [hnil] at ha
    cases ha.1
  have hlength : parts.length ≤ (spread lead tail parts).length := length_le_spread hne
  have hfuel : parts.length < (spread lead tail parts ++ ']' :: rest).length + 1 := by
    rw [List.length_append]
    omega
  unfold list
  rw [skipSpace_cons rfl]
  simp only [itemsFrom_spread hlead htail h hfuel, ok_bind]
  unfold endList
  rw [skipSpace_cons rfl]
  rfl

/-! ## Objects -/

/-- Fields of an object that are read one after the other. -/
inductive Fills (fields : List (NamedField σ)) : σ → List (List Char) → σ → Prop
  | nil (s : σ) : Fills fields s [] s
  | cons {s s' s'' : σ} {name : String} {value : List Char} {parts : List (List Char)}
      (field : ∀ rest, namedField fields name s (':' :: (value ++ rest)) = .ok (s', rest))
      (others : Fills fields s' parts s'') :
      Fills fields s ((writeText name ++ ':' :: value) :: parts) s''

variable {fields : List (NamedField σ)} {s s' : σ}

/-- A field that has not been given before is read after its colon. -/
theorem namedField_of_find? {name : String} {f : NamedField σ}
    (hfind : fields.find? (·.hasName name) = some f) (hgiven : f.given s = false)
    (rest : List Char) : namedField fields name s (':' :: rest) = f.read s rest := by
  unfold namedField colon
  rw [hfind, skipSpace_cons rfl]
  simp only [hgiven, Bool.false_eq_true, if_false]
  rfl

theorem nextKey_end (htail : Blanks tail) (first : Bool) (rest : List Char) :
    nextKey first (tail ++ '\x7d' :: rest) = .ok none := by
  unfold nextKey
  rw [skipSpace_append htail, skipSpace_cons rfl]
  rfl

theorem nextKey_first (hlead : Blanks lead) (body : List Char) :
    nextKey true (lead ++ '"' :: body) = .ok (some body) := by
  unfold nextKey
  rw [skipSpace_append hlead, skipSpace_cons rfl]
  rfl

theorem nextKey_comma (hlead : Blanks lead) (body : List Char) :
    nextKey false (',' :: (lead ++ '"' :: body)) = .ok (some body) := by
  have hskip : skipSpace (lead ++ '"' :: body) = '"' :: body := by
    rw [skipSpace_append hlead, skipSpace_cons rfl]
  unfold nextKey
  rw [skipSpace_cons rfl]
  simp [hskip]

theorem membersFrom_more (hlead : Blanks lead) (htail : Blanks tail) (h : Fills fields s parts s')
    {fuel : Nat} (hfuel : parts.length < fuel) (rest : List Char) :
    membersFrom (namedField fields) fuel false s
        (parts.flatMap ((',' :: lead) ++ ·) ++ (tail ++ '\x7d' :: rest)) =
      .ok (s', '\x7d' :: rest) := by
  induction h generalizing fuel with
  | nil s =>
    obtain ⟨fuel, rfl⟩ : ∃ n, fuel = n + 1 := ⟨fuel - 1, by rw [List.length_nil] at hfuel; omega⟩
    rw [List.flatMap_nil, List.nil_append, membersFrom, nextKey_end htail, skipSpace_append htail,
      skipSpace_cons rfl]
    rfl
  | @cons s t u name value parts field others ih =>
    rw [List.length_cons] at hfuel
    obtain ⟨fuel, rfl⟩ : ∃ n, fuel = n + 1 := ⟨fuel - 1, by omega⟩
    simp only [List.cons_append] at ih
    simp only [List.flatMap_cons, List.cons_append, List.append_assoc, writeText_append,
      membersFrom, nextKey_comma hlead, ok_bind, textBody_write, field]
    exact ih (by omega)

theorem membersFrom_spread (hlead : Blanks lead) (htail : Blanks tail)
    (h : Fills fields s parts s') {fuel : Nat} (hfuel : parts.length < fuel) (rest : List Char) :
    membersFrom (namedField fields) fuel true s (spread lead tail parts ++ '\x7d' :: rest) =
      .ok (s', '\x7d' :: rest) := by
  obtain ⟨fuel, rfl⟩ : ∃ n, fuel = n + 1 := ⟨fuel - 1, by omega⟩
  cases h with
  | nil =>
    have hblanks : Blanks (lead ++ tail) := fun c hc =>
      (List.mem_append.1 hc).elim (hlead c) (htail c)
    rw [spread, List.intercalate_nil, List.append_nil, membersFrom, nextKey_end hblanks,
      skipSpace_append hblanks, skipSpace_cons rfl]
    rfl
  | @cons _ t _ name value parts field others =>
    have hless : parts.length < fuel := by
      rw [List.length_cons] at hfuel
      omega
    have hmore := membersFrom_more hlead htail others hless rest
    simp only [List.cons_append] at hmore
    simp only [spread_cons, List.cons_append, List.append_assoc, writeText_append, membersFrom,
      nextKey_first hlead, ok_bind, textBody_write, field, hmore]

/-- An object is read, field by field; the record is complete if no field is missed. -/
theorem record_spread (name : String) (hlead : Blanks lead) (htail : Blanks tail)
    (h : Fills fields s parts s')
    (hcomplete : fields.find? (fun f => f.required && !f.given s') = none) (rest : List Char) :
    record name fields s ('\x7b' :: (spread lead tail parts ++ '\x7d' :: rest)) =
      .ok (s', rest) := by
  have hne : ∀ part ∈ parts, part ≠ [] := by
    intro part hpart
    induction h with
    | nil => cases hpart
    | cons field others ih =>
      rcases List.mem_cons.1 hpart with rfl | hpart
      · rw [writeText_append]
        exact List.cons_ne_nil _ _
      · exact ih hcomplete hpart
  have hlength : parts.length ≤ (spread lead tail parts).length := length_le_spread hne
  have hfuel : parts.length < (spread lead tail parts ++ '\x7d' :: rest).length + 1 := by
    rw [List.length_append]
    omega
  unfold record
  rw [skipSpace_cons rfl]
  simp only [membersFrom_spread hlead htail h hfuel, ok_bind, hcomplete]
  unfold endObject
  rw [skipSpace_cons rfl]
  rfl

/-! ## Whole texts -/

theorem parse_of_read {value : Reader α} {cs : List Char} {a : α} (h : value cs = .ok (a, [])) :
    parse value (String.ofList cs) = .ok a := by
  unfold parse
  rw [String.toList_ofList, h]
  rfl

end Equijoin.Json
