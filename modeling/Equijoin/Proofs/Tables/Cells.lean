import Equijoin.Proofs.Number.Reading
import Equijoin.Proofs.Tables.Typing

/-! # Cells read back

The cell that is written for a value that was read from a cell is read as that value again, except
that a NaN is written as an empty cell.

* `trim_eq`: numbers have no blanks around them.
* `Whole.read_toString`: integers.
* `Value.ofCell_render`: all values.
-/

set_option autoImplicit false

namespace Equijoin

/-! ## Blanks -/

theorem isBlank_of_isDigit {c : Char} (h : c.isDigit = true) : Text.isBlank c = false := by
  simp only [Char.isDigit, Bool.and_eq_true, decide_eq_true_eq] at h
  have hlow : 48 ≤ c.toNat := h.1
  have hhigh : c.toNat ≤ 57 := h.2
  unfold Text.isBlank
  simp only [Bool.or_eq_false_iff, Bool.and_eq_false_iff, decide_eq_false_iff_not,
    beq_eq_false_iff_ne]
  omega

theorem isBlank_of_all {cs : List Char} (h : cs.all (fun c => !Text.isBlank c) = true) :
    ∀ c ∈ cs, Text.isBlank c = false := by
  intro c hc
  simpa using List.all_eq_true.1 h c hc

theorem trim_eq {s : String} (h : ∀ c ∈ s.toList, Text.isBlank c = false) : Text.trim s = s := by
  have hkeep : ∀ cs : List Char, (∀ c ∈ cs, Text.isBlank c = false) →
      cs.dropWhile Text.isBlank = cs := by
    intro cs hcs
    cases cs with
    | nil => rfl
    | cons c cs => rw [List.dropWhile_cons_of_neg (by simp [hcs c List.mem_cons_self])]
  unfold Text.trim Text.trimChars
  rw [hkeep _ h, hkeep _ (fun c hc => h c (List.mem_reverse.1 hc)), List.reverse_reverse,
    String.ofList_toList]

/-! ## Integers -/

namespace Whole

theorem readDigits_eq {limit : Nat} {overflow : WholeFault} {ds : List Char}
    (hds : ∀ c ∈ ds, c.isDigit = true) {n : Nat} (h : Nat.ofDigitChars 10 ds n ≤ limit) :
    readDigits limit overflow n ds = .ok (Nat.ofDigitChars 10 ds n) := by
  induction ds generalizing n with
  | nil => rfl
  | cons c ds ih =>
    have hc : digitValue? c = some (c.toNat - 48) := if_pos (hds c List.mem_cons_self)
    rw [Nat.ofDigitChars_cons] at h ⊢
    have hle : 10 * n + (c.toNat - '0'.toNat) ≤ limit := by
      refine le_trans ?_ h
      rw [Nat.ofDigitChars_eq_ofDigitChars_zero]
      exact le_add_right (Nat.le_mul_of_pos_left _ (by positivity))
    unfold readDigits
    rw [hc]
    dsimp only
    rw [Nat.mul_comm n 10]
    refine (if_pos hle).trans ?_
    exact ih (fun d hd => hds d (List.mem_cons_of_mem _ hd)) h

theorem readInt_digits {ds : List Char} (hds : ∀ c ∈ ds, c.isDigit = true) (hne : ds ≠ []) :
    readInt ds = (readDigits 0x7FFFFFFFFFFFFFFF .tooLarge 0 ds).map fun n => (n : Int) := by
  unfold readInt
  split
  · exact absurd rfl hne
  · exact absurd (hds '+' List.mem_cons_self) (by decide)
  · exact absurd (hds '-' List.mem_cons_self) (by decide)
  · exact absurd (hds '-' List.mem_cons_self) (by decide)
  · exact absurd (hds '+' List.mem_cons_self) (by decide)
  · rfl

theorem readInt_minus {ds : List Char} (hne : ds ≠ []) : readInt ('-' :: ds) =
    (readDigits 0x8000000000000000 .tooSmall 0 ds).map fun n => -(n : Int) := by
  obtain ⟨d, ds, rfl⟩ := List.exists_cons_of_ne_nil hne
  rfl

/-- Every integer is read back from its text. -/
theorem read_toString (v : Int64) : read (toString v.toInt) = .ok v := by
  have hlow := v.le_toInt
  have hhigh := v.toInt_lt
  have hdigits : ∀ n : Nat, Nat.ofDigitChars 10 (Nat.toDigits 10 n) 0 = n :=
    fun n => Nat.ofDigitChars_ten_toDigits
  have hint : readInt (toString v.toInt).toList = .ok v.toInt := by
    rw [toList_toString]
    split
    · rename_i hsign
      rw [readInt_digits (isDigit_toDigits _) Nat.toDigits_ne_nil,
        readDigits_eq (isDigit_toDigits _) (by rw [hdigits]; omega), hdigits]
      exact congrArg _ (Int.toNat_of_nonneg hsign)
    · rename_i hsign
      rw [readInt_minus Nat.toDigits_ne_nil,
        readDigits_eq (isDigit_toDigits _) (by rw [hdigits]; omega), hdigits]
      have hsame : -((-v.toInt).toNat : ℤ) = v.toInt := by omega
      exact congrArg Except.ok hsame
  unfold read
  rw [hint]
  exact congrArg _ (Int64.ofInt_toInt v)

end Whole

theorem isBlank_toString (k : ℤ) : ∀ c ∈ (toString k).toList, Text.isBlank c = false := by
  intro c hc
  rw [toList_toString] at hc
  split at hc
  · exact isBlank_of_isDigit (isDigit_toDigits _ c hc)
  · rcases List.mem_cons.1 hc with rfl | hc
    · decide
    · exact isBlank_of_isDigit (isDigit_toDigits _ c hc)

/-! ## Floats -/

theorem isBlank_placed {ds : List Char} (hds : ∀ c ∈ ds, c.isDigit = true) (point : ℤ) :
    ∀ c ∈ DecimalLayout.placed ds point, Text.isBlank c = false := by
  have hdigit : ∀ c ∈ ds, Text.isBlank c = false := fun c hc => isBlank_of_isDigit (hds c hc)
  have hzeros : ∀ n, ∀ c ∈ List.replicate n '0', Text.isBlank c = false := by
    intro n c hc
    rw [List.eq_of_mem_replicate hc]
    decide
  unfold DecimalLayout.placed
  intro c hc
  split at hc
  · simp only [List.mem_append, List.mem_cons, List.not_mem_nil, or_false] at hc
    rcases hc with ((rfl | rfl) | hc) | hc
    · decide
    · decide
    · exact hzeros _ c hc
    · exact hdigit c hc
  · split at hc
    · simp only [List.mem_append, List.mem_cons, List.not_mem_nil, or_false] at hc
      rcases hc with (hc | hc) | rfl | rfl
      · exact hdigit c hc
      · exact hzeros _ c hc
      · decide
      · decide
    · rcases List.mem_append.1 hc with hc | hc
      · exact hdigit c (List.mem_of_mem_take hc)
      · rcases List.mem_cons.1 hc with rfl | hc
        · decide
        · exact hdigit c (List.mem_of_mem_drop hc)

theorem isBlank_scientific {ds : List Char} (hds : ∀ c ∈ ds, c.isDigit = true) (point : ℤ) :
    ∀ c ∈ DecimalLayout.scientific [] ds point, Text.isBlank c = false := by
  have hdigit : ∀ c ∈ ds, Text.isBlank c = false := fun c hc => isBlank_of_isDigit (hds c hc)
  have hsign : (if 1 ≤ point then ([] : List Char) else []) = [] := by split <;> rfl
  unfold DecimalLayout.scientific
  dsimp only
  rw [hsign]
  intro c hc
  rcases List.mem_append.1 hc with hc | hc
  · rcases List.mem_append.1 hc with hc | hc
    · split at hc
      · rcases List.mem_cons.1 hc with rfl | hc
        · exact hdigit c List.mem_cons_self
        · rcases List.mem_cons.1 hc with rfl | hc
          · decide
          · exact hdigit c (List.mem_cons_of_mem _ hc)
      · exact hdigit c hc
    · rw [List.mem_singleton.1 hc]
      decide
  · exact isBlank_toString _ c hc

theorem isBlank_text (x : Binary64) : ∀ c ∈ (x.text cellLayout).toList, Text.isBlank c = false := by
  unfold Binary64.text
  split
  · exact isBlank_of_all rfl
  · dsimp only
    rw [String.toList_ofList]
    suffices hbody : ∀ c ∈ (if x.isInfinite then ['i', 'n', 'f']
        else if x.significand = 0 then ['0', '.', '0']
        else cellLayout.write (x.shortest cellLayout.tie).1 (x.shortest cellLayout.tie).2),
        Text.isBlank c = false by
      intro c hc
      split at hc
      · rcases List.mem_cons.1 hc with rfl | hc
        · decide
        · exact hbody c hc
      · exact hbody c hc
    split
    · exact isBlank_of_all rfl
    · split
      · exact isBlank_of_all rfl
      · unfold DecimalLayout.write
        dsimp only
        split
        · exact isBlank_placed (isDigit_toDigits _) _
        · exact isBlank_scientific (isDigit_toDigits _) _

/-! ## Values -/

namespace Value

/-- The value that is read back: a NaN is written as an empty cell. -/
def settled : Value → Value
  | .float x => if x.isNaN then .null else .float x
  | v => v

theorem ofCell_of_text {storage : Storage} {raw : String} {v : Value} (hraw : raw ≠ "")
    (htrim : Text.trim raw = raw) (h : ofText storage raw = .ok v) :
    ofCell storage raw = .ok v := by
  unfold ofCell
  rw [if_neg hraw, if_neg (by rw [htrim]; exact fun hblank => hraw hblank.2)]
  exact h

theorem ofCell_int (v : Int64) : ofCell .int64 (toString v.toInt) = .ok (.int v) := by
  have hread := Whole.read_toString v
  have htrim := trim_eq (isBlank_toString v.toInt)
  refine ofCell_of_text (fun hempty => ?_) htrim ?_
  · rw [hempty] at hread
    cases hread
  · unfold ofText
    rw [htrim, hread]

theorem ofCell_float {x : Binary64} (h : x.isNaN = false) :
    ofCell .float64 (x.text cellLayout) = .ok (.float x) := by
  have hplus : cellLayout.plus = [] := rfl
  have hread := Binary64.read?_text hplus h
  have htrim := trim_eq (isBlank_text x)
  refine ofCell_of_text (fun hempty => ?_) htrim ?_
  · rw [hempty] at hread
    cases hread
  · unfold ofText
    rw [htrim, hread]

/-- A value that was read from a cell is read from the cell that is written for it. -/
theorem ofCell_render {storage : Storage} {v : Value} (h : v.ReadAt storage) :
    ofCell storage v.render = .ok v.settled := by
  obtain ⟨raw, hraw⟩ := h
  have hstorage := has_of_ofCell hraw
  cases v with
  | null => exact if_pos rfl
  | int v =>
    obtain rfl : storage = .int64 := hstorage
    exact ofCell_int v
  | float x =>
    obtain rfl : storage = .float64 := hstorage
    unfold render settled
    cases hnan : x.isNaN with
    | true =>
      simp only [hnan, if_true]
      exact if_pos rfl
    | false =>
      simp only [hnan, Bool.false_eq_true, if_false]
      exact ofCell_float hnan
  | bool b =>
    obtain rfl : storage = .bool := hstorage
    cases b with
    | true => decide +kernel
    | false => decide +kernel
  | text s =>
    -- a cell of text is kept as it is, so that the cell of this one was not empty
    obtain rfl : storage = .text := hstorage
    unfold ofCell at hraw
    split at hraw
    · cases hraw
    · rename_i hne
      rw [if_neg fun h => h.1 rfl] at hraw
      cases hraw
      unfold ofCell
      rw [render, if_neg hne, if_neg fun h => h.1 rfl]
      rfl

end Value

end Equijoin
